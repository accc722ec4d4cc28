import EProxy.Manager.Removal

/-!
# Counts and slots

`AppendService` stores the number of endpoints of a service as a `uint16` and writes
its backends under `uint32(id)<<16 | uint32(index)`, for the positions from one to that
number. Nothing bounds the number: a slice may list any number of addresses. Up to
65535 the count is the number and the keys tell service and position apart. One more,
and the count is zero while the last position is OR-ed into the id
(`appendService_slots_iff`).

What is said here holds for any handles, also for nil ones: then `AppendService` returns
without writing, and there is nothing to wrap.
-/

namespace EProxy

open Framework Machine

variable {env : Env} {w : World} {s : ServiceManager} {svc : Service}

/-! ### A call that returns -/

/-- The operations a call has issued. -/
def World.ops (w : World) : List MapOp := w.journal.map Event.op

/-- **When `AppendService` returns**, through whatever handles. -/
theorem appendService_returned_iff {set : Typed Ports} (hset : svc.ports = some set) :
    ((appendService env svc).run w).1.Returned ↔ svc.Addressable ∧
      Spares env.fault w.journal.length (appendScriptOn w.mgr.maps (w.allocated svc)
        (env.appendOrder.visit set.items)).length := by
  by_cases haddr : svc.Addressable
  · have hiff := exec_eq_none_iff bpfMachine env.fault w.log
      (appendScriptOn w.mgr.maps (w.allocated svc) (env.appendOrder.visit set.items))
    rw [and_iff_left (accepts_appendScriptOn _ _ _ _)] at hiff
    rw [and_iff_right haddr, appendService_run_on hset haddr]
    refine Iff.trans ?_ hiff
    rcases bpfMachine.exec env.fault w.log (appendScriptOn w.mgr.maps (w.allocated svc)
      (env.appendOrder.visit set.items)) with ⟨_ | e, st⟩
    · exact iff_of_true trivial rfl
    · exact iff_of_false id (by simp)
  · obtain ⟨p, hrun⟩ := appendService_panics env w (Or.inr haddr)
    rw [hrun]
    exact iff_of_false id fun h => haddr h.1

/-- `AppendService` returned: it has issued its script. -/
theorem appendService_ops {r : Service} {w' : World}
    (h : (appendService env svc).run w = (.ret r, w')) :
    ∃ order, order.Perm svc.portList ∧
      w'.ops = w.ops ++ appendScriptOn w.mgr.maps (w.allocated svc) order := by
  by_cases hgood : svc.ports.isSome ∧ svc.Addressable
  · obtain ⟨set, hset⟩ := Option.isSome_iff_exists.mp hgood.1
    rw [appendService_run_on hset hgood.2] at h
    rcases hx : bpfMachine.exec env.fault w.log (appendScriptOn w.mgr.maps (w.allocated svc)
        (env.appendOrder.visit set.items)) with ⟨_ | e, st⟩
    · rw [hx] at h
      obtain rfl := congrArg Prod.snd h
      refine ⟨_, visit_perm_portList env.appendOrder hset, ?_⟩
      have hops := exec_journal_ops (congrArg Prod.fst hx)
      rw [hx] at hops
      exact hops
    · rw [hx] at h
      exact absurd (congrArg Prod.fst h) (by simp)
  · -- a call that panics has not returned
    rw [not_and_or, Option.not_isSome_iff_eq_none] at hgood
    obtain ⟨p, hrun⟩ := appendService_panics env w hgood
    rw [hrun] at h
    exact absurd (congrArg Prod.fst h) (by simp)

/-! ### The keys of one service -/

/-- The backend an operation writes. -/
def MapOp.writtenBackend : MapOp → Option Endpoint4Key
  | .updateEndpoint e _ => some e
  | _ => none

/-- The backend keys written for a port. -/
def Service.backendKeys (svc : Service) : List Endpoint4Key :=
  (List.range' 1 svc.endpoints.length).map fun i => ⟨slot svc.serviceId i⟩

theorem nodup_backendKeys (hn : svc.endpoints.length ≤ 65535) : svc.backendKeys.Nodup := by
  refine List.Nodup.map_on (fun i hi j hj heq => ?_) List.nodup_range'
  obtain ⟨hi₁, hi₂⟩ := List.mem_range'_1.mp hi
  obtain ⟨hj₁, hj₂⟩ := List.mem_range'_1.mp hj
  exact (slot_inj (by omega) (by omega) (congrArg Endpoint4Key.endpointID heq)).2

theorem filterMap_appendEndpointOps (svc : Service) (port : Ports) :
    (appendEndpointOps svc port 0 svc.endpoints).filterMap MapOp.writtenBackend =
      svc.backendKeys := by
  unfold appendEndpointOps Service.backendKeys
  rw [List.filterMap_map]
  have hkeys : (MapOp.writtenBackend ∘ fun e : UInt32 × ℕ => MapOp.updateEndpoint
      ⟨slot svc.serviceId e.2⟩ (backendValue e.1 port)) =
      some ∘ (fun i => (⟨slot svc.serviceId i⟩ : Endpoint4Key)) ∘ Prod.snd := rfl
  rw [hkeys, ← Function.comp_def, List.filterMap_eq_map, ← List.map_map, List.zipIdx_map_snd]

/-- No visit of a port writes a key twice. -/
theorem count_writtenBackend_le (hn : svc.endpoints.length ≤ 65535) (m₀ : Maps)
    (order : List Ports) (e : Endpoint4Key) :
    ((appendScriptOn m₀ svc order).filterMap MapOp.writtenBackend).count e ≤ order.length := by
  induction order with
  | nil => exact Nat.le_refl 0
  | cons port rest ih =>
    have hport : ((appendPortOpsOn m₀ svc port).filterMap MapOp.writtenBackend).count e ≤ 1 := by
      unfold appendPortOpsOn
      split
      · simp
      · rw [List.filterMap_cons_none rfl]
        split
        · simp
        · rw [filterMap_appendEndpointOps]
          exact List.nodup_iff_count_le_one.mp (nodup_backendKeys hn) e
    -- one port more, and each key once more at most
    unfold appendScriptOn at ih ⊢
    rw [List.flatMap_cons, List.filterMap_append, List.count_append, List.length_cons]
    omega

/-! ### Exactness -/

/-- Every count written is the number of endpoints; no backend key is written more often
than there are ports; and each has the id in its upper half and a position in its
lower half. -/
structure SlotsExact (svc : Service) (id : UInt16) (ops : List MapOp) : Prop where
  count : ∀ {k v}, MapOp.updateService k v ∈ ops → v.count.toNat = svc.endpoints.length
  distinct : ∀ e, (ops.filterMap MapOp.writtenBackend).count e ≤ svc.portList.length
  key : ∀ {e v}, MapOp.updateEndpoint e v ∈ ops →
    e.endpointID.toNat / 65536 = id.toNat ∧ e.endpointID.toNat % 65536 ≠ 0

theorem slotsExact_nil (svc : Service) (id : UInt16) : SlotsExact svc id [] :=
  ⟨fun h => absurd h List.not_mem_nil, fun _ => Nat.zero_le _,
    fun h => absurd h List.not_mem_nil⟩

/-- Up to 65535 endpoints nothing wraps. -/
theorem slotsExact_appendScriptOn (m₀ : Maps) {order : List Ports}
    (hperm : order.Perm svc.portList) (hn : svc.endpoints.length ≤ 65535) :
    SlotsExact svc svc.serviceId (appendScriptOn m₀ svc order) where
  count {k v} h := by
    obtain ⟨port, -, hop | ⟨e, -, hop⟩⟩ := mem_appendScriptOn h
    · rw [(MapOp.updateService.inj hop).2]
      exact toNat_count hn
    · exact absurd hop (by simp)
  distinct e := by
    rw [← hperm.length_eq]
    exact count_writtenBackend_le hn m₀ order e
  key {e v} h := by
    obtain ⟨port, -, hop | ⟨⟨eip, i⟩, hi, hop⟩⟩ := mem_appendScriptOn h
    · exact absurd hop (by simp)
    · have hpos := List.mem_zipIdx hi
      rw [(MapOp.updateEndpoint.inj hop).1, slot_toNat _ (by omega)]
      constructor <;> omega

/-- Beyond 65535 the count of every frontend that is written is wrong. -/
theorem not_slotsExact_appendScriptOn {m₀ : Maps} (hset : m₀.serviceMap.isNone = false)
    {order : List Ports} (hperm : order.Perm svc.portList) (hne : svc.portList ≠ [])
    (hn : ¬ svc.endpoints.length ≤ 65535) (id : UInt16) :
    ¬ SlotsExact svc id (appendScriptOn m₀ svc order) := by
  intro hexact
  obtain ⟨port, rest, rfl⟩ := List.exists_cons_of_ne_nil fun hnil : order = [] =>
    hne (List.nil_perm.mp (hnil ▸ hperm))
  have hmem : MapOp.updateService (svc.frontendKey port) svc.frontendValue ∈
      appendScriptOn m₀ svc (port :: rest) := by
    unfold appendScriptOn appendPortOpsOn
    rw [hset]
    exact List.mem_cons_self
  -- the count is the length modulo 65536
  have hcount := hexact.count hmem
  rw [Service.frontendValue, UInt16.toNat_ofNat'] at hcount
  omega

/-- Only the ports and the endpoints of the service matter. -/
theorem SlotsExact.congr {svc' : Service} {id : UInt16} {ops : List MapOp}
    (h : SlotsExact svc id ops) (hports : svc'.portList = svc.portList)
    (heps : svc'.endpoints = svc.endpoints) : SlotsExact svc' id ops :=
  ⟨fun hop => heps ▸ h.count hop, fun e => hports ▸ h.distinct e, h.key⟩

/-- The allocation changes neither. -/
theorem slotsExact_allocated (s : ServiceManager) (svc : Service) (id : UInt16)
    (ops : List MapOp) : SlotsExact (s.allocated svc) id ops ↔ SlotsExact svc id ops := by
  have hports : (s.allocated svc).portList = svc.portList := allocated_portList ⟨s, []⟩ svc
  have heps : (s.allocated svc).endpoints = svc.endpoints := allocated_endpoints ⟨s, []⟩ svc
  exact ⟨fun h => h.congr hports.symm heps.symm, fun h => h.congr hports heps⟩

/-- The script of a call of `AppendService` that returned. -/
theorem invoke_appendService_ops (hret : (s.invoke env (.appendService svc)).1 = .ret ()) :
    ∃ order, order.Perm (s.allocated svc).portList ∧
      (s.invoke env (.appendService svc)).2.ops =
        appendScriptOn s.maps (s.allocated svc) order := by
  obtain ⟨r, happ⟩ := Go.run_bind_pure_eq_ret (Prod.ext hret rfl)
  obtain ⟨order, hperm, hops⟩ := appendService_ops happ
  have hports : (s.allocated svc).portList = svc.portList := allocated_portList ⟨s, []⟩ svc
  exact ⟨order, hports ▸ hperm, hops⟩

/-- **Exactly when counts and slots do not wrap.** For every service, every manager and
whatever the call meets, each time `AppendService` returns: what it writes is exact
exactly when the service has at most 65535 endpoints, or nothing is written because it
has no port or the handle of `serviceMap` is nil. -/
theorem appendService_slots_iff
    (hret : (s.invoke env (.appendService svc)).1 = .ret ()) :
    SlotsExact svc (s.allocated svc).serviceId (s.invoke env (.appendService svc)).2.ops ↔
      svc.endpoints.length ≤ 65535 ∨ svc.portList = [] ∨ s.maps.serviceMap.isNone := by
  obtain ⟨order, hperm, hops⟩ := invoke_appendService_ops hret
  have hports : (s.allocated svc).portList = svc.portList := allocated_portList ⟨s, []⟩ svc
  have heps : (s.allocated svc).endpoints = svc.endpoints := allocated_endpoints ⟨s, []⟩ svc
  rw [hops, ← slotsExact_allocated s, ← hports, ← heps]
  constructor
  · intro hexact
    by_contra hnot
    simp only [not_or, Bool.not_eq_true] at hnot
    obtain ⟨hmany, hne, hset⟩ := hnot
    exact not_slotsExact_appendScriptOn hset hperm hne hmany _ hexact
  · rintro (hn | hnil | hnil)
    · exact slotsExact_appendScriptOn s.maps hperm hn
    -- without a port, or without the map, the script is empty
    · rw [hnil, List.perm_nil] at hperm
      rw [hperm]
      exact slotsExact_nil _ _
    · rw [appendScriptOn_of_nil hnil]
      exact slotsExact_nil _ _

/-- The web service of one endpoint is written exactly. -/
theorem appendService_slots_web :
    SlotsExact webService ((newServiceManager Maps.empty).allocated webService).serviceId
      ((newServiceManager Maps.empty).invoke .calm (.appendService webService)).2.ops :=
  (appendService_slots_iff (by decide)).mpr (Or.inl (by decide))

/-- A service with one endpoint more than 16 bits can count. -/
def crowdedService : Service := { webService with endpoints := List.replicate 65536 0x0100f40a }

/-- It is published, with count zero. -/
theorem crowded_count_wraps :
    ((newServiceManager Maps.empty).invoke .calm (.appendService crowdedService)).1 = .ret () ∧
      ¬ SlotsExact crowdedService
        ((newServiceManager Maps.empty).allocated crowdedService).serviceId
        ((newServiceManager Maps.empty).invoke .calm (.appendService crowdedService)).2.ops := by
  have hset : crowdedService.ports = some (Typed.new.add ⟨.tcp, 80, 8080⟩) := rfl
  have haddr : crowdedService.Addressable := addressable_of_length rfl
  have hret : ((newServiceManager Maps.empty).invoke .calm
      (.appendService crowdedService)).1 = .ret () := by
    rw [ServiceManager.invoke, Call.computation, Go.run_discard_fst_eq_ret_iff,
      appendService_returned_iff hset]
    exact ⟨haddr, fun _ _ _ => rfl⟩
  refine ⟨hret, ?_⟩
  -- the general statement says what is wrong; evaluating 65536 writes would take too long
  obtain ⟨order, hperm, hops⟩ := invoke_appendService_ops hret
  have hports := allocated_portList ⟨newServiceManager Maps.empty, []⟩ crowdedService
  have heps := allocated_endpoints ⟨newServiceManager Maps.empty, []⟩ crowdedService
  rw [hops, ← slotsExact_allocated (newServiceManager Maps.empty)]
  refine not_slotsExact_appendScriptOn rfl hperm ?_ ?_ _
  · have hone : ((newServiceManager Maps.empty).allocated crowdedService).portList =
        webService.portList := hports
    rw [hone]
    decide
  · have hlen : ((newServiceManager Maps.empty).allocated crowdedService).endpoints.length =
        65536 := (congrArg List.length heps).trans List.length_replicate
    omega

end EProxy
