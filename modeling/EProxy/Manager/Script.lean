import EProxy.Manager.Manager

/-!
# The map operations of a call

`DeleteService` and `AppendService` are loops around map operations, and the list of
the operations they issue does not depend on how these turn out: an error only cuts
it short. This file reads off each method the script it runs and states what the
method does in terms of `Machine.exec` on it. Everything proved about the maps later
is proved about scripts.

* `deleteScript` and `appendScript` are the two scripts, for a visiting order of the
  ports;
* `deleteService_run` and `appendService_run` are the refinements, for a service
  whose port set is set and whose address can be encoded (or is never looked at);
* `deleteService_cases` and `appendService_cases` say everything a call can do.
-/

namespace EProxy

open Framework Machine

/-! ### The scripts -/

/-- The encoded address of a service, zero when it has none. -/
def Service.vip (svc : Service) : UInt32 := (IP.encoded svc.ipAddress).getD 0

/-- The key of the frontend of a port. -/
def Service.frontendKey (svc : Service) (port : Ports) : Service4Key := service4Key svc.vip port

/-- The value of the frontends of a service. -/
def Service.frontendValue (svc : Service) : Service4Value :=
  ⟨svc.serviceId, UInt16.ofNat svc.endpoints.length⟩

/-- The visitors do not panic on the address: there is no port to visit, or the
address is IPv4. -/
def Service.Addressable (svc : Service) : Prop :=
  svc.portList = [] ∨ (IP.encoded svc.ipAddress).isSome

/-- A service with a four-byte address is addressable. -/
theorem addressable_of_length {svc : Service} (h : svc.ipAddress.length = 4) :
    svc.Addressable := by
  obtain ⟨b₀, b₁, b₂, b₃, -, henc⟩ := encoded_of_length h
  exact Or.inr (by rw [henc]; rfl)

theorem isSome_ports_of_ne_nil {svc : Service} (h : svc.portList ≠ []) : svc.ports.isSome := by
  unfold Service.portList at h
  cases hset : svc.ports with
  | none => rw [hset] at h; exact absurd rfl h
  | some set => rfl

/-- The operations of `deleteEndpoints`. -/
def deleteEndpointOps (svc : Service) (index n : ℕ) : List MapOp :=
  (List.range' index n).map fun i => .deleteEndpoint ⟨slot svc.serviceId i⟩

/-- The operations of `deleteVisitor`. -/
def deletePortOps (svc : Service) (port : Ports) : List MapOp :=
  .deleteService (svc.frontendKey port) :: deleteEndpointOps svc 0 svc.endpoints.length

/-- The operations of `DeleteService`. -/
def deleteScript (svc : Service) (order : List Ports) : List MapOp :=
  order.flatMap (deletePortOps svc)

/-- The value of a backend. -/
def backendValue (eip : UInt32) (port : Ports) : Endpoint4Value :=
  ⟨eip, littleEndianPort port.targetPort, 0, 0⟩

/-- The operations of `appendEndpoints`. -/
def appendEndpointOps (svc : Service) (port : Ports) (index : ℕ) (eps : List UInt32) :
    List MapOp :=
  (eps.zipIdx (index + 1)).map fun e =>
    .updateEndpoint ⟨slot svc.serviceId e.2⟩ (backendValue e.1 port)

/-- The operations of `appendVisitor`. -/
def appendPortOps (svc : Service) (port : Ports) : List MapOp :=
  .updateService (svc.frontendKey port) svc.frontendValue ::
    appendEndpointOps svc port 0 svc.endpoints

/-- The operations of `AppendService`. -/
def appendScript (svc : Service) (order : List Ports) : List MapOp :=
  order.flatMap (appendPortOps svc)

@[simp] theorem deleteEndpointOps_succ (svc : Service) (index n : ℕ) :
    deleteEndpointOps svc index (n + 1) =
      .deleteEndpoint ⟨slot svc.serviceId index⟩ :: deleteEndpointOps svc (index + 1) n := rfl

@[simp] theorem appendEndpointOps_cons (svc : Service) (port : Ports) (index : ℕ) (eip : UInt32)
    (eps : List UInt32) :
    appendEndpointOps svc port index (eip :: eps) =
      .updateEndpoint ⟨slot svc.serviceId (index + 1)⟩ (backendValue eip port) ::
        appendEndpointOps svc port (index + 1) eps := rfl

@[simp] theorem deleteScript_cons (svc : Service) (port : Ports) (order : List Ports) :
    deleteScript svc (port :: order) = deletePortOps svc port ++ deleteScript svc order := rfl

@[simp] theorem appendScript_cons (svc : Service) (port : Ports) (order : List Ports) :
    appendScript svc (port :: order) = appendPortOps svc port ++ appendScript svc order := rfl

/-- The number of operations it takes to publish or to remove a service. -/
def Service.opCount (svc : Service) : ℕ := svc.portList.length * (svc.endpoints.length + 1)

/-- A script with the same number of operations for each port. -/
theorem length_flatMap_of_forall {ops : Ports → List MapOp} {n : ℕ}
    (h : ∀ port, (ops port).length = n) (order : List Ports) :
    (order.flatMap ops).length = order.length * n := by
  rw [List.length_flatMap]
  simp only [h, List.map_const', List.sum_replicate_nat]

theorem length_deleteScript {svc : Service} {order : List Ports} (h : order.Perm svc.portList) :
    (deleteScript svc order).length = svc.opCount := by
  rw [Service.opCount, ← h.length_eq]
  exact length_flatMap_of_forall (fun port => by simp [deletePortOps, deleteEndpointOps]) order

theorem length_appendScript {svc : Service} {order : List Ports} (h : order.Perm svc.portList) :
    (appendScript svc order).length = svc.opCount := by
  rw [Service.opCount, ← h.length_eq]
  exact length_flatMap_of_forall (fun port => by simp [appendPortOps, appendEndpointOps]) order

/-! ### Methods as scripts -/

variable {env : Env} {w : World}

/-- A map operation through a handle that is set. -/
theorem mapOp_run {op : MapOp} (hop : op.nilHandle w.mgr.maps = false) :
    (mapOp env op).run w =
      (.ret (bpfMachine.issue env.fault w.log op).1,
        w.withLog (bpfMachine.issue env.fault w.log op).2) := by
  simp [mapOp, hop]

theorem nilHandle_of_nonNil {m : Maps} (hm : m.NonNil) (op : MapOp) : op.nilHandle m = false := by
  cases op <;> first | exact hm.serviceMap_isNone | exact hm.endpointsMap_isNone

/-- Scripts keep the handles. -/
theorem exec_nonNil {fault : ℕ → Option MapError} {st : Log Maps MapOp MapError}
    (h : st.mem.NonNil) (ops : List MapOp) :
    (bpfMachine.exec fault st ops).2.mem.NonNil :=
  exec_invariant (fun op _ _ hm => apply_nonNil hm op) h

/-- A property of the maps that every operation keeps. -/
def Kept (I : Maps → Prop) : Prop := ∀ {m}, I m → ∀ op : MapOp, I (op.apply m)

theorem kept_nonNil : Kept Maps.NonNil := apply_nonNil

theorem kept_sameHandles (m₀ : Maps) : Kept m₀.SameHandles := apply_sameHandles

/-- `rest` runs the script `ops` on every state with the property. -/
def RunsScript (env : Env) (I : Maps → Prop) (rest : Mgr (Option (IterError MapError)))
    (ops : List MapOp) : Prop :=
  ∀ w : World, I w.mgr.maps → rest.run w =
    (.ret ((bpfMachine.exec env.fault w.log ops).1.map .other),
      w.withLog (bpfMachine.exec env.fault w.log ops).2)

/-- One operation of a script, and the rest of it when the operation went through. -/
theorem mapOp_bind_run {I : Maps → Prop} (hI : Kept I) (hm : I w.mgr.maps) {op : MapOp}
    (hop : op.nilHandle w.mgr.maps = false) (ops : List MapOp)
    (rest : Mgr (Option (IterError MapError))) (hrest : RunsScript env I rest ops) :
    (mapOp env op >>= fun e =>
        match e with
        | some err => pure (some (.other err))
        | none => rest).run w =
      (.ret ((bpfMachine.exec env.fault w.log (op :: ops)).1.map .other),
        w.withLog (bpfMachine.exec env.fault w.log (op :: ops)).2) := by
  rw [Go.run_bind_ret (mapOp_run hop)]
  -- a failed operation ends the loop with its error
  rcases hi : bpfMachine.issue env.fault w.log op with ⟨_ | e, st⟩
  · rw [exec_cons_none hi]
    have hst : I (bpfMachine.exec env.fault w.log [op]).2.mem :=
      exec_invariant (fun op _ _ hm => hI hm op) hm
    rw [exec_cons_none hi] at hst
    exact hrest (w.withLog st) hst
  · rw [exec_cons_some hi]
    rfl

theorem deleteEndpoints_run (svc : Service) (eps : List UInt32) (index : ℕ) :
    RunsScript env Maps.NonNil (deleteEndpoints env svc index eps)
      (deleteEndpointOps svc index eps.length) := by
  -- on the endpoints still to delete, from any position and any state of the maps
  induction eps generalizing index with
  | nil => exact fun w _ => rfl
  | cons e rest ih =>
    exact fun w hm => mapOp_bind_run kept_nonNil hm (nilHandle_of_nonNil hm _) _ _ (ih (index + 1))

/-- The endpoint loop of `AppendService`, through whatever handles: without the handle
of `endpointsMap` it ends before its first operation. -/
theorem appendEndpoints_run (m₀ : Maps) (svc : Service) (port : Ports) (eps : List UInt32)
    (index : ℕ) :
    RunsScript env m₀.SameHandles (appendEndpoints env svc port index eps)
      (if m₀.endpointsMap.isNone then [] else appendEndpointOps svc port index eps) := by
  induction eps generalizing index with
  | nil => intro w _; split <;> rfl
  | cons e rest ih =>
    intro w hm
    rw [appendEndpoints, Go.run_bind_ret (Go.run_get w), hm.endpoints]
    cases hnil : m₀.endpointsMap.isNone with
    | true => rfl
    | false =>
      rw [hnil] at ih
      refine mapOp_bind_run (kept_sameHandles m₀) hm ?_
        (appendEndpointOps svc port (index + 1) rest) _ (ih (index + 1))
      exact hm.endpoints.trans hnil

/-- The first line of both visitors, for an IPv4 address. -/
theorem lift_vip_run {svc : Service} (hip : (IP.encoded svc.ipAddress).isSome) :
    (Go.lift (Outcome.ofOption .indexOutOfRange (IP.encoded svc.ipAddress)) : Mgr UInt32).run w =
      (.ret svc.vip, w) := by
  obtain ⟨ip, hip⟩ := Option.isSome_iff_exists.mp hip
  rw [Service.vip, hip]
  rfl

theorem deleteVisitor_run {svc : Service} (hip : (IP.encoded svc.ipAddress).isSome)
    (port : Ports) :
    RunsScript env Maps.NonNil (deleteVisitor env svc port) (deletePortOps svc port) := by
  intro w hm
  rw [deleteVisitor, Go.run_bind_ret (lift_vip_run hip)]
  exact mapOp_bind_run kept_nonNil hm (nilHandle_of_nonNil hm _) _ _
    (deleteEndpoints_run svc svc.endpoints 0)

/-- The operations `appendVisitor` issues through the handles of `m₀`. -/
def appendPortOpsOn (m₀ : Maps) (svc : Service) (port : Ports) : List MapOp :=
  if m₀.serviceMap.isNone then []
  else .updateService (svc.frontendKey port) svc.frontendValue ::
    if m₀.endpointsMap.isNone then [] else appendEndpointOps svc port 0 svc.endpoints

theorem appendVisitor_run (m₀ : Maps) {svc : Service}
    (hip : (IP.encoded svc.ipAddress).isSome) (port : Ports) :
    RunsScript env m₀.SameHandles (appendVisitor env svc port) (appendPortOpsOn m₀ svc port) := by
  intro w hm
  rw [appendVisitor, Go.run_bind_ret (lift_vip_run hip), Go.run_bind_ret (Go.run_get w),
    hm.service, appendPortOpsOn]
  cases hnil : m₀.serviceMap.isNone with
  | true => rfl
  | false =>
    refine mapOp_bind_run (kept_sameHandles m₀) hm ?_ _ _
      (appendEndpoints_run m₀ svc port svc.endpoints 0)
    exact hm.service.trans hnil

/-- **Iterating scripts.** A loop over ports whose visitor runs a script for each of
them runs the scripts one after the other. The first error of one is the loop's
panic, and no member is removed from the set. -/
theorem iterFrom_run {I : Maps → Prop} (hI : Kept I)
    {visitor : Ports → Mgr (Option (IterError MapError))} {ops : Ports → List MapOp}
    (hv : ∀ port, RunsScript env I (visitor port) (ops port))
    (order : List Ports) (set : Typed Ports) (hm : I w.mgr.maps) :
    (Typed.iterFrom visitor order set).run w =
      match bpfMachine.exec env.fault w.log (order.flatMap ops) with
      | (none, st) => (.ret set, w.withLog st)
      | (some e, st) => (.panic (.logged e), w.withLog st) := by
  induction order generalizing w with
  | nil => rfl
  | cons port rest ih =>
    have hkept : I (bpfMachine.exec env.fault w.log (ops port)).2.mem :=
      exec_invariant (fun op _ _ hm => hI hm op) hm
    rw [Typed.iterFrom, Go.run_bind_ret (hv port w hm), List.flatMap_cons, exec_append]
    -- the loop goes on if the script of the port went through, and panics if not
    rcases hx : bpfMachine.exec env.fault w.log (ops port) with ⟨_ | e, st⟩
    · rw [hx] at hkept
      exact ih (w := w.withLog st) hkept
    · rfl

section Iter

variable {visitor : Ports → Mgr (Option (IterError MapError))} {ops : Ports → List MapOp}
  {svc : Service} {set : Typed Ports}

theorem portList_of_ports (hset : svc.ports = some set) : svc.portList = set.items := by
  rw [Service.portList, hset]

/-- Every order visits the ports of the service. -/
theorem visit_perm_portList (order : IterOrder Ports) (hset : svc.ports = some set) :
    (order.visit set.items).Perm svc.portList := by
  rw [portList_of_ports hset]
  exact order.perm _

/-- A loop over the ports of an addressable service: with no port to visit the
visitor's behaviour does not matter. -/
theorem iter_run {I : Maps → Prop} (hI : Kept I) (order : IterOrder Ports)
    (hset : svc.ports = some set) (haddr : svc.Addressable)
    (hv : (IP.encoded svc.ipAddress).isSome → ∀ port, RunsScript env I (visitor port) (ops port))
    (hm : I w.mgr.maps) :
    (set.iter order visitor).run w =
      match bpfMachine.exec env.fault w.log ((order.visit set.items).flatMap ops) with
      | (none, st) => (.ret set, w.withLog st)
      | (some e, st) => (.panic (.logged e), w.withLog st) := by
  rcases haddr with hnil | hip
  · -- no port: neither side does anything
    rw [portList_of_ports hset] at hnil
    have hvisit : order.visit set.items = [] := by
      rw [hnil]; exact List.perm_nil.mp (order.perm [])
    rw [Typed.iter, hvisit]
    rfl
  · exact iterFrom_run hI (hv hip) _ set hm

/-- A loop over the ports of a service that is not addressable panics at the first
of them, before any map operation. -/
theorem iter_run_of_not_addressable (order : IterOrder Ports) (hset : svc.ports = some set)
    (haddr : ¬ svc.Addressable)
    (hv : IP.encoded svc.ipAddress = none → ∀ port,
      (visitor port).run w = (.panic .indexOutOfRange, w)) :
    (set.iter order visitor).run w = (.panic .indexOutOfRange, w) := by
  rw [Service.Addressable, not_or, portList_of_ports hset] at haddr
  obtain ⟨hne, hip⟩ := haddr
  have hip' : IP.encoded svc.ipAddress = none := by simpa using hip
  obtain ⟨port, rest, hcons⟩ : ∃ port rest, order.visit set.items = port :: rest := by
    refine List.exists_cons_of_ne_nil fun hnil => hne ?_
    have hperm := order.perm set.items
    rw [hnil] at hperm
    exact List.nil_perm.mp hperm
  rw [Typed.iter, hcons, Typed.iterFrom]
  exact Go.run_bind_panic (hv hip' port)

end Iter

/-! ### What `DeleteService` does -/

section Delete

variable {key : String} {svc : Service} {set : Typed Ports}

theorem deleteService_run_of_absent (h : w.mgr.services key = none) :
    (deleteService env key).run w = (.ret none, w) := by
  rw [deleteService, Go.run_bind_ret (Go.run_get w), h]
  rfl

theorem deleteService_run_of_nil (h : w.mgr.services key = some svc) (hset : svc.ports = none) :
    (deleteService env key).run w = (.panic .nilDereference, w) := by
  simp only [deleteService, Go.run_bind_ret (Go.run_get w), h, hset]
  rfl

theorem deleteService_run_of_not_addressable (h : w.mgr.services key = some svc)
    (hset : svc.ports = some set) (haddr : ¬ svc.Addressable) :
    (deleteService env key).run w = (.panic .indexOutOfRange, w) := by
  simp only [deleteService, Go.run_bind_ret (Go.run_get w), h, hset]
  refine Go.run_bind_panic (iter_run_of_not_addressable _ hset haddr fun hip port => ?_)
  rw [deleteVisitor, hip]
  rfl

/-- **`DeleteService` is its script.** -/
theorem deleteService_run (hm : w.mgr.maps.NonNil) (h : w.mgr.services key = some svc)
    (hset : svc.ports = some set) (haddr : svc.Addressable) :
    (deleteService env key).run w =
      match bpfMachine.exec env.fault w.log
          (deleteScript svc (env.deleteOrder.visit set.items)) with
      | (none, st) => (.ret none, (w.withLog st).eraseService key)
      | (some e, st) => (.panic (.logged e), w.withLog st) := by
  have hiter := iter_run kept_nonNil env.deleteOrder hset haddr
    (fun hip port => (deleteVisitor_run hip port : RunsScript env _ _ _)) hm
  simp only [deleteService, Go.run_bind_ret (Go.run_get w), h, hset]
  rw [deleteScript]
  rcases hx : bpfMachine.exec env.fault w.log
      ((env.deleteOrder.visit set.items).flatMap (deletePortOps svc)) with ⟨_ | e, st⟩
  · rw [hx] at hiter
    rw [Go.run_bind_ret hiter]
    rfl
  · rw [hx] at hiter
    exact Go.run_bind_panic hiter

/-- **Everything `DeleteService` can do.** The key is not there; or it is removed
after the whole script; or the method panics, before any map operation or at the one
that failed, and the services stay as they were. -/
theorem deleteService_cases (env : Env) (hm : w.mgr.maps.NonNil) (key : String) :
    (w.mgr.services key = none ∧ (deleteService env key).run w = (.ret none, w)) ∨
    (∃ svc set st, w.mgr.services key = some svc ∧ svc.ports = some set ∧ svc.Addressable ∧
      bpfMachine.exec env.fault w.log
        (deleteScript svc (env.deleteOrder.visit set.items)) = (none, st) ∧
      (deleteService env key).run w = (.ret none, (w.withLog st).eraseService key)) ∨
    (∃ svc p, w.mgr.services key = some svc ∧ (svc.ports = none ∨ ¬ svc.Addressable) ∧
      (deleteService env key).run w = (.panic p, w)) ∨
    (∃ svc set e st, w.mgr.services key = some svc ∧ svc.ports = some set ∧ svc.Addressable ∧
      bpfMachine.exec env.fault w.log
        (deleteScript svc (env.deleteOrder.visit set.items)) = (some e, st) ∧
      (deleteService env key).run w = (.panic (.logged e), w.withLog st)) := by
  cases h : w.mgr.services key with
  | none => exact Or.inl ⟨rfl, deleteService_run_of_absent h⟩
  | some svc =>
    refine Or.inr ?_
    cases hset : svc.ports with
    | none =>
      exact Or.inr (Or.inl ⟨svc, _, rfl, Or.inl hset, deleteService_run_of_nil h hset⟩)
    | some set =>
      by_cases haddr : svc.Addressable
      · have hrun := @deleteService_run env w key svc set hm h hset haddr
        rcases hx : bpfMachine.exec env.fault w.log
            (deleteScript svc (env.deleteOrder.visit set.items)) with ⟨_ | e, st⟩
        · rw [hx] at hrun
          exact Or.inl ⟨svc, set, st, rfl, hset, haddr, hx, hrun⟩
        · rw [hx] at hrun
          exact Or.inr (Or.inr ⟨svc, set, e, st, rfl, hset, haddr, hx, hrun⟩)
      · exact Or.inr (Or.inl ⟨svc, _, rfl, Or.inr haddr,
          deleteService_run_of_not_addressable h hset haddr⟩)

end Delete

/-! ### What `AppendService` does -/

section Append

variable {svc : Service} {set : Typed Ports}

/-- The object `AppendService` stores. -/
def World.allocated (w : World) (svc : Service) : Service :=
  (allocate w.mgr.cacheSerivceId svc).2

/-- The world after the allocation loop. -/
def World.afterAllocate (w : World) (svc : Service) : World :=
  w.setCache (allocate w.mgr.cacheSerivceId svc).1

/-- The allocation changes the id of the object and nothing else. -/
theorem allocated_eq (w : World) (svc : Service) :
    ∃ id, w.allocated svc = { svc with serviceId := id } := by
  unfold World.allocated allocate
  split
  · exact ⟨_, rfl⟩
  · exact ⟨svc.serviceId, rfl⟩

section Projections

variable (w : World) (svc : Service)

@[simp] theorem allocated_ports : (w.allocated svc).ports = svc.ports := by
  obtain ⟨id, h⟩ := allocated_eq w svc
  rw [h]

@[simp] theorem allocated_ipAddress : (w.allocated svc).ipAddress = svc.ipAddress := by
  obtain ⟨id, h⟩ := allocated_eq w svc
  rw [h]

@[simp] theorem allocated_endpoints : (w.allocated svc).endpoints = svc.endpoints := by
  obtain ⟨id, h⟩ := allocated_eq w svc
  rw [h]

@[simp] theorem allocated_serviceKey : (w.allocated svc).serviceKey = svc.serviceKey := by
  obtain ⟨id, h⟩ := allocated_eq w svc
  rw [h]
  rfl

@[simp] theorem allocated_portList : (w.allocated svc).portList = svc.portList := by
  rw [Service.portList, allocated_ports]
  rfl

@[simp] theorem allocated_vip : (w.allocated svc).vip = svc.vip := by
  rw [Service.vip, allocated_ipAddress]
  rfl

@[simp] theorem allocated_frontendKey (port : Ports) :
    (w.allocated svc).frontendKey port = svc.frontendKey port := by
  rw [Service.frontendKey, allocated_vip]
  rfl

@[simp] theorem allocated_opCount : (w.allocated svc).opCount = svc.opCount := by
  rw [Service.opCount, allocated_portList, allocated_endpoints]
  rfl

@[simp] theorem allocated_addressable : (w.allocated svc).Addressable ↔ svc.Addressable := by
  rw [Service.Addressable, allocated_portList, allocated_ipAddress]
  rfl

end Projections

/-- The allocation, then the rest of the method on the allocated object. -/
theorem appendService_run_eq :
    (appendService env svc).run w =
      (publishService env (w.allocated svc)).run (w.afterAllocate svc) := by
  rw [appendService, Go.run_bind_ret (Go.run_get w), Go.run_bind_ret (Go.run_modify _ w)]
  rfl

theorem publishService_run_of_nil (hset : svc.ports = none) :
    (publishService env svc).run w = (.panic .nilDereference, w) := by
  rw [publishService, hset]
  rfl

theorem publishService_run_of_not_addressable (hset : svc.ports = some set)
    (haddr : ¬ svc.Addressable) :
    (publishService env svc).run w = (.panic .indexOutOfRange, w) := by
  rw [publishService, hset]
  refine Go.run_bind_panic (iter_run_of_not_addressable _ hset haddr fun hip port => ?_)
  rw [appendVisitor, hip]
  rfl

/-- The operations of `AppendService` through the handles of `m₀`. -/
def appendScriptOn (m₀ : Maps) (svc : Service) (order : List Ports) : List MapOp :=
  order.flatMap (appendPortOpsOn m₀ svc)

theorem appendScriptOn_of_nonNil {m₀ : Maps} (hm : m₀.NonNil) (svc : Service)
    (order : List Ports) : appendScriptOn m₀ svc order = appendScript svc order := by
  unfold appendScriptOn appendScript appendPortOpsOn
  rw [hm.serviceMap_isNone, hm.endpointsMap_isNone]
  rfl

theorem appendScriptOn_of_nil {m₀ : Maps} (h : m₀.serviceMap.isNone) (svc : Service)
    (order : List Ports) : appendScriptOn m₀ svc order = [] :=
  List.flatMap_eq_nil_iff.mpr fun _ _ => if_pos h

theorem publishService_run (hset : svc.ports = some set) (haddr : svc.Addressable) :
    (publishService env svc).run w =
      match bpfMachine.exec env.fault w.log
          (appendScriptOn w.mgr.maps svc (env.appendOrder.visit set.items)) with
      | (none, st) => (.ret svc, (w.withLog st).setService svc.serviceKey svc)
      | (some e, st) => (.panic (.logged e), w.withLog st) := by
  have hiter := iter_run (kept_sameHandles w.mgr.maps) env.appendOrder hset haddr
    (fun hip port => (appendVisitor_run w.mgr.maps hip port : RunsScript env _ _ _)) ⟨rfl, rfl⟩
  -- no member leaves the set, so the object is stored as it came
  have hstored : { svc with ports := some set } = svc := by rw [← hset]
  rw [publishService, hset, appendScriptOn]
  rcases hx : bpfMachine.exec env.fault w.log
      ((env.appendOrder.visit set.items).flatMap (appendPortOpsOn w.mgr.maps svc)) with
    ⟨_ | e, st⟩
  · rw [hx] at hiter
    rw [Go.run_bind_ret hiter]
    change (Outcome.ret { svc with ports := some set }, (w.withLog st).setService
      (Service.serviceKey { svc with ports := some set }) { svc with ports := some set }) = _
    rw [hstored]
  · rw [hx] at hiter
    exact Go.run_bind_panic hiter

/-- **`AppendService` is its script**, after the allocation and through whatever
handles. -/
theorem appendService_run_on (hset : svc.ports = some set) (haddr : svc.Addressable) :
    (appendService env svc).run w =
      match bpfMachine.exec env.fault w.log
          (appendScriptOn w.mgr.maps (w.allocated svc) (env.appendOrder.visit set.items)) with
      | (none, st) => (.ret (w.allocated svc),
          ((w.afterAllocate svc).withLog st).setService svc.serviceKey (w.allocated svc))
      | (some e, st) => (.panic (.logged e), (w.afterAllocate svc).withLog st) := by
  rw [appendService_run_eq, publishService_run (w := w.afterAllocate svc)
    ((allocated_ports w svc).trans hset) ((allocated_addressable w svc).mpr haddr),
    allocated_serviceKey]
  rfl

/-- The same with both handles set. -/
theorem appendService_run (hm : w.mgr.maps.NonNil) (hset : svc.ports = some set)
    (haddr : svc.Addressable) :
    (appendService env svc).run w =
      match bpfMachine.exec env.fault w.log
          (appendScript (w.allocated svc) (env.appendOrder.visit set.items)) with
      | (none, st) => (.ret (w.allocated svc),
          ((w.afterAllocate svc).withLog st).setService svc.serviceKey (w.allocated svc))
      | (some e, st) => (.panic (.logged e), (w.afterAllocate svc).withLog st) := by
  rw [appendService_run_on hset haddr, appendScriptOn_of_nonNil hm]

/-- Without a port set, or without an address to encode for a port, `AppendService`
panics before any map operation. -/
theorem appendService_panics (env : Env) (w : World)
    (h : svc.ports = none ∨ ¬ svc.Addressable) :
    ∃ p, (appendService env svc).run w = (.panic p, w.afterAllocate svc) := by
  cases hset : svc.ports with
  | none =>
    exact ⟨_, by rw [appendService_run_eq,
      publishService_run_of_nil ((allocated_ports w svc).trans hset)]⟩
  | some set =>
    have haddr := h.resolve_left (by simp [hset])
    exact ⟨_, by rw [appendService_run_eq, publishService_run_of_not_addressable
      ((allocated_ports w svc).trans hset) fun ha => haddr ((allocated_addressable w svc).mp ha)]⟩

/-- **Everything `AppendService` can do.** It publishes the service; or it panics,
before any map operation or at the one that failed, and the services stay as they
were. -/
theorem appendService_cases (env : Env) (hm : w.mgr.maps.NonNil) (svc : Service) :
    (∃ set st, svc.ports = some set ∧ svc.Addressable ∧
      bpfMachine.exec env.fault w.log
        (appendScript (w.allocated svc) (env.appendOrder.visit set.items)) = (none, st) ∧
      (appendService env svc).run w = (.ret (w.allocated svc),
        ((w.afterAllocate svc).withLog st).setService svc.serviceKey (w.allocated svc))) ∨
    (∃ p, (svc.ports = none ∨ ¬ svc.Addressable) ∧
      (appendService env svc).run w = (.panic p, w.afterAllocate svc)) ∨
    (∃ set e st, svc.ports = some set ∧ svc.Addressable ∧
      bpfMachine.exec env.fault w.log
        (appendScript (w.allocated svc) (env.appendOrder.visit set.items)) = (some e, st) ∧
      (appendService env svc).run w = (.panic (.logged e), (w.afterAllocate svc).withLog st)) := by
  cases hset : svc.ports with
  | none =>
    obtain ⟨p, hrun⟩ := appendService_panics env w (Or.inl hset)
    exact Or.inr (Or.inl ⟨p, Or.inl rfl, hrun⟩)
  | some set =>
    by_cases haddr : svc.Addressable
    · have hrun := @appendService_run env w svc set hm hset haddr
      rcases hx : bpfMachine.exec env.fault w.log
          (appendScript (w.allocated svc) (env.appendOrder.visit set.items)) with ⟨_ | e, st⟩
      · rw [hx] at hrun
        exact Or.inl ⟨set, st, rfl, haddr, hx, hrun⟩
      · rw [hx] at hrun
        exact Or.inr (Or.inr ⟨set, e, st, rfl, haddr, hx, hrun⟩)
    · obtain ⟨p, hrun⟩ := appendService_panics env w (Or.inr haddr)
      exact Or.inr (Or.inl ⟨p, Or.inr haddr, hrun⟩)

end Append

/-! ### What the slice methods do -/

section Slices

variable {new : Api.EndpointSlice}

/-- `OnUpdateEndpointSlice` of a slice whose service is not found appends an object
without ports. -/
theorem onUpdateEndpointSlice_run_of_absent (hlabels : new.labels ≠ [])
    (h : w.mgr.services (sliceKey new) = none) :
    (onUpdateEndpointSlice env new).run w =
      (Go.lift (onUpdateEndpoints [] new.endpoints) >>= fun eps =>
        appendService env ⟨new.serviceName.text, new.ns.text, 0, [], none, eps⟩ >>= fun service' =>
          (Go.modify fun w => w.setService (sliceKey new) service' : Mgr Unit)).run w := by
  rw [onUpdateEndpointSlice, if_neg hlabels, Go.run_bind_ret (Go.run_get w)]
  simp only [h, Option.isSome_none, Option.getD_none, Bool.false_eq_true, if_false]

/-- Otherwise it deletes the service under its own key and appends it with the new
endpoints. -/
theorem onUpdateEndpointSlice_run_of_live (hlabels : new.labels ≠ []) {service : Service}
    (h : w.mgr.services (sliceKey new) = some service) :
    (onUpdateEndpointSlice env new).run w =
      (Go.lift (onUpdateEndpoints [] new.endpoints) >>= fun eps =>
        deleteService env service.serviceKey >>= fun _ =>
          appendService env { service with endpoints := eps } >>= fun service' =>
            (Go.modify fun w => w.setService (sliceKey new) service' : Mgr Unit)).run w := by
  rw [onUpdateEndpointSlice, if_neg hlabels, Go.run_bind_ret (Go.run_get w)]
  simp only [h, Option.isSome_some, Option.getD_some, if_true]

theorem onDeleteEndpointSlice_run_of_absent (h : w.mgr.services (sliceKey new) = none) :
    (onDeleteEndpointSlice env new).run w = (.ret (), w) := by
  rw [onDeleteEndpointSlice, Go.run_bind_ret (Go.run_get w), h]
  rfl

theorem onDeleteEndpointSlice_run_of_live {service : Service}
    (h : w.mgr.services (sliceKey new) = some service) :
    (onDeleteEndpointSlice env new).run w =
      (deleteService env service.serviceKey >>= fun _ =>
        (Go.modify fun w => w.eraseService (sliceKey new) : Mgr Unit)).run w := by
  rw [onDeleteEndpointSlice, Go.run_bind_ret (Go.run_get w), h]

/-- **An update that returned** has found its service, deleted it and stored it again. -/
theorem onUpdateEndpointSlice_eq_ret (hlabels : new.labels ≠ []) {w' : World}
    (h : (onUpdateEndpointSlice env new).run w = (.ret (), w')) :
    ∃ service eps err w₁ service' w₂, w.mgr.services (sliceKey new) = some service ∧
      onUpdateEndpoints [] new.endpoints = .ret eps ∧
      (deleteService env service.serviceKey).run w = (.ret err, w₁) ∧
      (appendService env { service with endpoints := eps }).run w₁ = (.ret service', w₂) ∧
      w₂.setService (sliceKey new) service' = w' := by
  cases hfound : w.mgr.services (sliceKey new) with
  | none =>
    -- the object made up for a service that is not found has no ports
    rw [onUpdateEndpointSlice_run_of_absent hlabels hfound] at h
    obtain ⟨eps, w₁, -, h⟩ := Go.run_bind_eq_ret h
    obtain ⟨service', w₂, happ, -⟩ := Go.run_bind_eq_ret h
    have hnil : (⟨new.serviceName.text, new.ns.text, 0, [], none, eps⟩ : Service).ports = none :=
      rfl
    obtain ⟨p, hpanic⟩ := appendService_panics env w₁ (Or.inl hnil)
    exact absurd (happ.symm.trans hpanic) (by simp)
  | some service =>
    rw [onUpdateEndpointSlice_run_of_live hlabels hfound] at h
    obtain ⟨eps, w₀, hlift, h⟩ := Go.run_bind_eq_ret h
    obtain ⟨heps, rfl⟩ := Prod.mk.inj hlift
    obtain ⟨err, w₁, hdel, h⟩ := Go.run_bind_eq_ret h
    obtain ⟨service', w₂, happ, hstore⟩ := Go.run_bind_eq_ret h
    exact ⟨service, eps, err, w₁, service', w₂, rfl, heps, hdel, happ, congrArg Prod.snd hstore⟩

/-- **A deletion that returned** has found nothing, or has deleted the service under its own
key and under the key of the lookup. -/
theorem onDeleteEndpointSlice_eq_ret {w' : World}
    (h : (onDeleteEndpointSlice env new).run w = (.ret (), w')) :
    (w.mgr.services (sliceKey new) = none ∧ w = w') ∨
    ∃ service err w₁, w.mgr.services (sliceKey new) = some service ∧
      (deleteService env service.serviceKey).run w = (.ret err, w₁) ∧
      w₁.eraseService (sliceKey new) = w' := by
  cases hfound : w.mgr.services (sliceKey new) with
  | none =>
    rw [onDeleteEndpointSlice_run_of_absent hfound] at h
    exact Or.inl ⟨rfl, congrArg Prod.snd h⟩
  | some service =>
    rw [onDeleteEndpointSlice_run_of_live hfound] at h
    obtain ⟨err, w₁, hdel, herase⟩ := Go.run_bind_eq_ret h
    exact Or.inr ⟨service, err, w₁, rfl, hdel, congrArg Prod.snd herase⟩

end Slices

end EProxy
