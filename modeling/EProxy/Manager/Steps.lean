import EProxy.Manager.Effect

/-!
# What a call that returned did

A call of `DeleteService` or `UpdateService` that returns has run whole scripts, so
its effect on the manager can be told without journals, faults and panics. `Removes`
and `Publishes` are these effects, `Cleared` the one of `DeleteService` whether or
not the key was there, and an update is a `Cleared` followed by a `Publishes`.

Nothing here supposes that a service is stored under its own key, or that its address
is IPv4; these are facts about the states that runs reach, and `Sound` collects them.
`step_cases` is the form in which the rest of the development takes a step apart.
-/

namespace EProxy

open Framework Machine

/-- `DeleteService` took `svc` off `key`, visiting its ports in `order`. -/
structure Removes (s : ServiceManager) (key : String) (svc : Service) (order : List Ports)
    (s' : ServiceManager) : Prop where
  live : s.services key = some svc
  ports : svc.ports.isSome
  addressable : svc.Addressable
  perm : order.Perm svc.portList
  deletable : Deletable s.maps svc
  services : s'.services = s.services.erase key
  cache : s'.cacheSerivceId = s.cacheSerivceId
  maps : s'.maps = bpfMachine.fold s.maps (deleteScript svc order)

/-- `DeleteService` returned: the key was not there, or its service was removed. -/
def Cleared (s : ServiceManager) (key : String) (s' : ServiceManager) : Prop :=
  (s.services key = none ∧ s' = s) ∨ ∃ svc order, Removes s key svc order s'

/-- The object `AppendService` stores for `svc`. -/
def ServiceManager.allocated (s : ServiceManager) (svc : Service) : Service :=
  (allocate s.cacheSerivceId svc).2

/-- `AppendService` published `svc`, visiting its ports in `order`. -/
structure Publishes (s : ServiceManager) (svc : Service) (order : List Ports)
    (s' : ServiceManager) : Prop where
  ports : svc.ports.isSome
  addressable : svc.Addressable
  perm : order.Perm svc.portList
  services : s'.services = s.services.set svc.serviceKey (s.allocated svc)
  cache : s'.cacheSerivceId = (allocate s.cacheSerivceId svc).1
  maps : s'.maps = bpfMachine.fold s.maps (appendScript (s.allocated svc) order)

/-! ### Methods -/

variable {env : Env} {w w' : World} {key : String} {svc : Service}

/-- A script that went through, seen from its result. -/
theorem exec_eq_none {fault : ℕ → Option MapError} {st st' : Log Maps MapOp MapError}
    {ops : List MapOp} (h : bpfMachine.exec fault st ops = (none, st')) :
    Spares fault st.journal.length ops.length ∧ bpfMachine.Accepts st.mem ops ∧
      st'.mem = bpfMachine.fold st.mem ops ∧
      st'.journal.length = st.journal.length + ops.length := by
  have hnone : (bpfMachine.exec fault st ops).1 = none := by rw [h]
  obtain ⟨hsp, hacc⟩ := (exec_eq_none_iff bpfMachine fault st ops).mp hnone
  have hmem := exec_mem hnone
  have hlen := exec_journal_length hnone
  rw [h] at hmem hlen
  exact ⟨hsp, hacc, hmem, hlen⟩

theorem deleteService_ret (hm : w.mgr.maps.NonNil) {r : Option MapError}
    (h : (deleteService env key).run w = (.ret r, w')) : Cleared w.mgr key w'.mgr := by
  rcases deleteService_cases env hm key with ⟨hnone, hrun⟩ |
    ⟨svc, set, st, hlive, hset, haddr, hx, hrun⟩ | ⟨svc, p, _, _, hrun⟩ |
    ⟨svc, set, e, st, _, _, _, _, hrun⟩
  · rw [hrun] at h
    obtain rfl := congrArg Prod.snd h
    exact Or.inl ⟨hnone, rfl⟩
  · rw [hrun] at h
    obtain rfl := congrArg Prod.snd h
    -- the whole script went through, so every entry it deletes was there
    obtain ⟨_, hacc, hmem, _⟩ := exec_eq_none hx
    have hperm := visit_perm_portList env.deleteOrder hset
    refine Or.inr ⟨svc, env.deleteOrder.visit set.items, ?_⟩
    exact
      { live := hlive
        ports := by rw [hset]; rfl
        addressable := haddr
        perm := hperm
        deletable := (accepts_deleteScript_iff hperm _).mp hacc
        services := rfl
        cache := rfl
        maps := hmem }
  -- the two ways to panic
  · rw [hrun] at h
    exact absurd (congrArg Prod.fst h) (by simp)
  · rw [hrun] at h
    exact absurd (congrArg Prod.fst h) (by simp)

theorem appendService_ret (hm : w.mgr.maps.NonNil) {r : Service}
    (h : (appendService env svc).run w = (.ret r, w')) :
    Publishes w.mgr svc (env.appendOrder.visit svc.portList) w'.mgr := by
  rcases appendService_cases env hm svc with ⟨set, st, hset, haddr, hx, hrun⟩ | ⟨p, _, hrun⟩ |
    ⟨set, e, st, _, _, _, hrun⟩
  · rw [hrun] at h
    obtain rfl := congrArg Prod.snd h
    obtain ⟨_, _, hmem, _⟩ := exec_eq_none hx
    exact
      { ports := by rw [hset]; rfl
        addressable := haddr
        perm := env.appendOrder.perm _
        services := rfl
        cache := rfl
        maps := by rw [portList_of_ports hset]; exact hmem }
  · rw [hrun] at h
    exact absurd (congrArg Prod.fst h) (by simp)
  · rw [hrun] at h
    exact absurd (congrArg Prod.fst h) (by simp)

/-- The handles stay set. -/
theorem Removes.nonNil {s s' : ServiceManager} {order : List Ports}
    (h : Removes s key svc order s') (hm : s.maps.NonNil) : s'.maps.NonNil := by
  rw [h.maps]
  exact fold_nonNil hm _

theorem Publishes.nonNil {s s' : ServiceManager} {order : List Ports}
    (h : Publishes s svc order s') (hm : s.maps.NonNil) : s'.maps.NonNil := by
  rw [h.maps]
  exact fold_nonNil hm _

/-- With a port to visit there is one that is visited last. -/
theorem Publishes.exists_last {s s' : ServiceManager} {order : List Ports}
    (h : Publishes s svc order s') (hne : svc.portList ≠ []) :
    ∃ init last, order = init ++ [last] := by
  have horder : order ≠ [] := by
    intro hnil
    have hperm := h.perm
    rw [hnil] at hperm
    exact hne (List.nil_perm.mp hperm)
  exact ⟨_, _, (List.dropLast_append_getLast horder).symm⟩

theorem Cleared.nonNil {s s' : ServiceManager} (h : Cleared s key s') (hm : s.maps.NonNil) :
    s'.maps.NonNil := by
  rcases h with ⟨-, rfl⟩ | ⟨svc, order, h⟩
  · exact hm
  · exact h.nonNil hm

/-- Without a live service under its key an update is an append. -/
theorem updateService_run_of_absent (h : w.mgr.services svc.serviceKey = none) :
    (updateService env svc).run w =
      (appendService env svc >>= fun _ => (pure none : Mgr (Option MapError))).run w := by
  rw [updateService, Go.run_bind_ret (Go.run_get w), h]

/-- Otherwise it is a deletion, then an append. -/
theorem updateService_run_of_live {old : Service} (h : w.mgr.services svc.serviceKey = some old) :
    (updateService env svc).run w =
      (deleteService env old.serviceKey >>= fun err =>
        appendService env svc >>= fun _ => (pure err : Mgr (Option MapError))).run w := by
  rw [updateService, Go.run_bind_ret (Go.run_get w), h]

/-- **An update that returned** has ended with an append, on a world where the service it
replaces has been deleted. -/
theorem updateService_eq_ret {r : Option MapError}
    (h : (updateService env svc).run w = (.ret r, w')) :
    ∃ w₁ a, (appendService env svc).run w₁ = (.ret a, w') ∧
      ((w.mgr.services svc.serviceKey = none ∧ w = w₁) ∨
        ∃ old err, w.mgr.services svc.serviceKey = some old ∧
          (deleteService env old.serviceKey).run w = (.ret err, w₁)) := by
  cases hlive : w.mgr.services svc.serviceKey with
  | none =>
    rw [updateService_run_of_absent hlive] at h
    obtain ⟨a, happ⟩ := Go.run_bind_pure_eq_ret h
    exact ⟨w, a, happ, Or.inl ⟨rfl, rfl⟩⟩
  | some old =>
    rw [updateService_run_of_live hlive] at h
    obtain ⟨err, w₁, hdel, h⟩ := Go.run_bind_eq_ret h
    obtain ⟨a, happ⟩ := Go.run_bind_pure_eq_ret h
    exact ⟨w₁, a, happ, Or.inr ⟨old, err, rfl, hdel⟩⟩

/-- The same in terms of the manager, for a service stored under its own key or not at
all. -/
theorem updateService_ret (hm : w.mgr.maps.NonNil)
    (hkeyed : ∀ old, w.mgr.services svc.serviceKey = some old → old.serviceKey = svc.serviceKey)
    {r : Option MapError} (h : (updateService env svc).run w = (.ret r, w')) :
    ∃ s₁ order, Cleared w.mgr svc.serviceKey s₁ ∧ Publishes s₁ svc order w'.mgr := by
  obtain ⟨w₁, a, happ, ⟨hnone, rfl⟩ | ⟨old, err, hold, hdel⟩⟩ := updateService_eq_ret h
  · exact ⟨w.mgr, _, Or.inl ⟨hnone, rfl⟩, appendService_ret hm happ⟩
  · rw [hkeyed old hold] at hdel
    have hcl := deleteService_ret hm hdel
    exact ⟨w₁.mgr, _, hcl, appendService_ret (hcl.nonNil hm) happ⟩

/-! ### The script of a call

Returned or not, what a call leaves in the maps and in its journal is one script, run
as far as it goes. -/

section Scripts

theorem deleteService_log (env : Env) (hm : w.mgr.maps.NonNil) (key : String) :
    ∃ ops, (ops = [] ∨ ∃ svc order, w.mgr.services key = some svc ∧
        order.Perm svc.portList ∧ ops = deleteScript svc order) ∧
      ((deleteService env key).run w).2.log = (bpfMachine.exec env.fault w.log ops).2 ∧
      (((deleteService env key).run w).1.Returned →
        (bpfMachine.exec env.fault w.log ops).1 = none) := by
  rcases deleteService_cases env hm key with ⟨_, hrun⟩ | ⟨svc, set, st, hlive, hset, _, hx, hrun⟩ |
    ⟨svc, p, _, _, hrun⟩ | ⟨svc, set, e, st, hlive, hset, _, hx, hrun⟩
  · exact ⟨[], Or.inl rfl, by rw [hrun]; rfl, fun _ => rfl⟩
  · refine ⟨_, Or.inr ⟨svc, _, hlive, visit_perm_portList env.deleteOrder hset, rfl⟩, ?_,
      fun _ => by rw [hx]⟩
    rw [hrun, hx]
    rfl
  · exact ⟨[], Or.inl rfl, by rw [hrun]; rfl, fun _ => rfl⟩
  · -- a script that failed is no return
    refine ⟨_, Or.inr ⟨svc, _, hlive, visit_perm_portList env.deleteOrder hset, rfl⟩,
      by rw [hrun, hx]; rfl, fun h => ?_⟩
    rw [hrun] at h
    exact h.elim

theorem appendService_log (env : Env) (hm : w.mgr.maps.NonNil) (svc : Service) :
    ∃ ops, (ops = [] ∨ ∃ order, order.Perm svc.portList ∧
        ops = appendScript (w.allocated svc) order) ∧
      ((appendService env svc).run w).2.log = (bpfMachine.exec env.fault w.log ops).2 := by
  rcases appendService_cases env hm svc with ⟨set, st, hset, _, hx, hrun⟩ | ⟨p, _, hrun⟩ |
    ⟨set, e, st, hset, _, hx, hrun⟩
  · exact ⟨_, Or.inr ⟨_, visit_perm_portList env.appendOrder hset, rfl⟩, by rw [hrun, hx]; rfl⟩
  · exact ⟨[], Or.inl rfl, by rw [hrun]; rfl⟩
  · exact ⟨_, Or.inr ⟨_, visit_perm_portList env.appendOrder hset, rfl⟩, by rw [hrun, hx]; rfl⟩

/-- **The script of an update.** The deletions of a live service, if any, then the
updates for the service of the call, if any. -/
theorem updateService_log (env : Env) (hm : w.mgr.maps.NonNil) (svc : Service) :
    ∃ opsD opsA,
      (opsD = [] ∨ ∃ key old order, w.mgr.services key = some old ∧ order.Perm old.portList ∧
        opsD = deleteScript old order) ∧
      (opsA = [] ∨ ∃ id order, order.Perm svc.portList ∧
        opsA = appendScript { svc with serviceId := id } order) ∧
      ((updateService env svc).run w).2.log =
        (bpfMachine.exec env.fault w.log (opsD ++ opsA)).2 := by
  -- which id the allocation gives out does not matter here
  have happ : ∀ {w : World}, w.mgr.maps.NonNil → ∃ ops,
      (ops = [] ∨ ∃ id order, order.Perm svc.portList ∧
        ops = appendScript { svc with serviceId := id } order) ∧
      ((appendService env svc).run w).2.log = (bpfMachine.exec env.fault w.log ops).2 := by
    intro w hm
    obtain ⟨ops, hops, hlog⟩ := appendService_log env hm svc
    obtain ⟨id, hid⟩ := allocated_eq w svc
    rw [hid] at hops
    exact ⟨ops, hops.imp_right fun ⟨order, h⟩ => ⟨id, order, h⟩, hlog⟩
  cases hlive : w.mgr.services svc.serviceKey with
  | none =>
    obtain ⟨ops, hops, hlog⟩ := happ hm
    refine ⟨[], ops, Or.inl rfl, hops, ?_⟩
    rw [updateService_run_of_absent hlive, Go.run_bind_pure_snd]
    exact hlog
  | some old =>
    obtain ⟨opsD, hD, hlogD, hretD⟩ := deleteService_log env hm old.serviceKey
    have hD' : opsD = [] ∨ ∃ key d order, w.mgr.services key = some d ∧
        List.Perm order d.portList ∧ opsD = deleteScript d order :=
      hD.imp_right fun ⟨d, order, h⟩ => ⟨old.serviceKey, d, order, h⟩
    rw [updateService_run_of_live hlive]
    rcases hdel : (deleteService env old.serviceKey).run w with ⟨err | p, w₁⟩
    · -- the deletion returned, so its script went through and the append follows it
      rw [hdel] at hlogD hretD
      have hm₁ : w₁.log.mem.NonNil := by
        rw [hlogD]
        exact exec_nonNil hm opsD
      obtain ⟨opsA, hA, hlogA⟩ := happ (w := w₁) hm₁
      refine ⟨opsD, opsA, hD', hA, ?_⟩
      have hD₀ : bpfMachine.exec env.fault w.log opsD = (none, w₁.log) :=
        Prod.ext (hretD trivial) hlogD.symm
      rw [Go.run_bind_ret hdel, Go.run_bind_pure_snd, exec_append, hD₀]
      exact hlogA
    · -- the deletion panicked, and nothing is appended
      rw [hdel] at hlogD
      refine ⟨opsD, [], hD', Or.inl rfl, ?_⟩
      rw [Go.run_bind_panic hdel, List.append_nil]
      exact hlogD

/-- **The script of a call** that updates or deletes a service. -/
theorem invoke_log {s : ServiceManager} (env : Env) (hm : s.maps.NonNil) {call : Call}
    (hcall : call.UpdateOrDelete) :
    ∃ opsD opsA,
      (opsD = [] ∨ ∃ key old order, s.services key = some old ∧ order.Perm old.portList ∧
        opsD = deleteScript old order) ∧
      (opsA = [] ∨ ∃ svc id order, call = .updateService svc ∧ order.Perm svc.portList ∧
        opsA = appendScript { svc with serviceId := id } order) ∧
      (s.invoke env call).2.log =
        (bpfMachine.exec env.fault ⟨s.maps, []⟩ (opsD ++ opsA)).2 := by
  cases call with
  | appendService svc => exact hcall.elim
  | onUpdateEndpointSlice new => exact hcall.elim
  | onDeleteEndpointSlice slice => exact hcall.elim
  | deleteService key =>
    obtain ⟨ops, hops, hlog, -⟩ := @deleteService_log ⟨s, []⟩ env hm key
    refine ⟨ops, [], hops.imp_right fun ⟨svc, order, h⟩ => ⟨key, svc, order, h⟩, Or.inl rfl, ?_⟩
    rw [List.append_nil]
    exact (congrArg World.log (Go.run_discard_snd _ _)).trans hlog
  | updateService svc =>
    obtain ⟨opsD, opsA, hD, hA, hlog⟩ := @updateService_log ⟨s, []⟩ env hm svc
    refine ⟨opsD, opsA, hD, hA.imp_right fun ⟨id, order, h⟩ => ⟨svc, id, order, rfl, h⟩, ?_⟩
    exact (congrArg World.log (Go.run_discard_snd _ _)).trans hlog

end Scripts

/-! ### Runs -/

/-- What holds of the manager between calls. -/
structure Sound (s : ServiceManager) : Prop where
  nonNil : s.maps.NonNil
  keyed : ∀ {key svc}, s.services key = some svc → svc.serviceKey = key
  ports : ∀ {key svc}, s.services key = some svc → svc.ports.isSome
  addressable : ∀ {key svc}, s.services key = some svc → svc.Addressable

variable {s s₁ s' : ServiceManager} {order : List Ports}

theorem sound_init : Sound (newServiceManager Maps.empty) :=
  ⟨Maps.nonNil_empty, fun h => absurd h (by simp [newServiceManager]),
    fun h => absurd h (by simp [newServiceManager]),
    fun h => absurd h (by simp [newServiceManager])⟩

/-- The services after `DeleteService` are the others. -/
theorem Cleared.services_apply (h : Cleared s key s') (k : String) :
    s'.services k = if k = key then none else s.services k := by
  rcases h with ⟨hnone, rfl⟩ | ⟨svc, order, h⟩
  · split
    · next hk => rw [hk, hnone]
    · rfl
  · rw [h.services, Table.erase_apply]

theorem Cleared.cache (h : Cleared s key s') : s'.cacheSerivceId = s.cacheSerivceId := by
  rcases h with ⟨-, rfl⟩ | ⟨svc, order, h⟩
  · rfl
  · exact h.cache

/-- The services after `AppendService`. -/
theorem Publishes.services_apply (h : Publishes s svc order s') (k : String) :
    s'.services k = if k = svc.serviceKey then some (s.allocated svc) else s.services k := by
  rw [h.services, Table.set_apply]

theorem Cleared.sound (h : Cleared s key s') (hs : Sound s) : Sound s' := by
  have hsub : ∀ {k svc}, s'.services k = some svc → s.services k = some svc := by
    intro k svc hk
    rw [h.services_apply] at hk
    split at hk
    · exact absurd hk (by simp)
    · exact hk
  exact ⟨h.nonNil hs.nonNil, fun hk => hs.keyed (hsub hk), fun hk => hs.ports (hsub hk),
    fun hk => hs.addressable (hsub hk)⟩

theorem Publishes.sound (h : Publishes s svc order s') (hs : Sound s) : Sound s' := by
  have hnew : (s.allocated svc).serviceKey = svc.serviceKey ∧
      (s.allocated svc).ports = svc.ports ∧
      ((s.allocated svc).Addressable ↔ svc.Addressable) :=
    ⟨allocated_serviceKey ⟨s, []⟩ svc, allocated_ports ⟨s, []⟩ svc,
      allocated_addressable ⟨s, []⟩ svc⟩
  -- an entry is the new one or an old one
  have hcases : ∀ {k x}, s'.services k = some x →
      (k = svc.serviceKey ∧ x = s.allocated svc) ∨ s.services k = some x := by
    intro k x hk
    rw [h.services_apply] at hk
    split at hk
    · next hkey => exact Or.inl ⟨hkey, (Option.some.inj hk).symm⟩
    · exact Or.inr hk
  refine ⟨h.nonNil hs.nonNil, fun hk => ?_, fun hk => ?_, fun hk => ?_⟩
  · rcases hcases hk with ⟨rfl, rfl⟩ | hk
    · exact hnew.1
    · exact hs.keyed hk
  · rcases hcases hk with ⟨rfl, rfl⟩ | hk
    · rw [hnew.2.1]; exact h.ports
    · exact hs.ports hk
  · rcases hcases hk with ⟨rfl, rfl⟩ | hk
    · exact hnew.2.2.mpr h.addressable
    · exact hs.addressable hk

/-- A call of `DeleteService` that returned. -/
theorem invoke_deleteService_ret (hs : Sound s) {env : Env}
    (h : (s.invoke env (.deleteService key)).1 = .ret ()) :
    Cleared s key (s.invoke env (.deleteService key)).2.mgr := by
  obtain ⟨r, hdel⟩ := Go.run_bind_pure_eq_ret (Prod.ext h rfl)
  exact @deleteService_ret env ⟨s, []⟩ _ key hs.nonNil r hdel

/-- A call of `UpdateService` that returned. -/
theorem invoke_updateService_ret (hs : Sound s) {env : Env}
    (h : (s.invoke env (.updateService svc)).1 = .ret ()) :
    ∃ s₁ order, Cleared s svc.serviceKey s₁ ∧
      Publishes s₁ svc order (s.invoke env (.updateService svc)).2.mgr := by
  obtain ⟨r, hupd⟩ := Go.run_bind_pure_eq_ret (Prod.ext h rfl)
  -- `Sound` says that the old service is stored under its own key
  exact @updateService_ret env ⟨s, []⟩ _ svc hs.nonNil (fun old hold => hs.keyed hold) r hupd

/-- **Everything a step that returns can do.** -/
theorem step_cases (hs : Sound s) {l : Invocation}
    (h : (returningSystem Call.UpdateOrDelete).step s l s') :
    (∃ key, l.call = .deleteService key ∧ Cleared s key s') ∨
    (∃ svc s₁ order, l.call = .updateService svc ∧ Cleared s svc.serviceKey s₁ ∧
      Publishes s₁ svc order s') := by
  obtain ⟨hallowed, hret, hmgr⟩ := h
  obtain ⟨call, env⟩ := l
  simp only at hmgr hret
  cases call with
  | deleteService key =>
    exact Or.inl ⟨key, rfl, hmgr ▸ invoke_deleteService_ret hs hret⟩
  | updateService svc =>
    obtain ⟨s₁, order, hcl, hpub⟩ := invoke_updateService_ret hs hret
    exact Or.inr ⟨svc, s₁, order, rfl, hcl, hmgr ▸ hpub⟩
  | appendService svc => exact hallowed.elim
  | onUpdateEndpointSlice new => exact hallowed.elim
  | onDeleteEndpointSlice slice => exact hallowed.elim

/-- The same for a system that allows fewer calls, with what it allows. -/
theorem allowed_step_cases {allowed : Call → Prop}
    (hsub : ∀ {call}, allowed call → call.UpdateOrDelete) (hs : Sound s) {l : Invocation}
    (h : (returningSystem allowed).step s l s') :
    (∃ key, l.call = .deleteService key ∧ Cleared s key s') ∨
    (∃ svc s₁ order, l.call = .updateService svc ∧ allowed (.updateService svc) ∧
      Cleared s svc.serviceKey s₁ ∧ Publishes s₁ svc order s') := by
  rcases step_cases hs ⟨hsub h.1, h.2⟩ with hdel | ⟨svc, s₁, order, hcall, hcl, hpub⟩
  · exact Or.inl hdel
  · have hallowed := h.1
    rw [hcall] at hallowed
    exact Or.inr ⟨svc, s₁, order, hcall, hallowed, hcl, hpub⟩

theorem sound_step {l : Invocation} (hs : Sound s)
    (h : (returningSystem Call.UpdateOrDelete).step s l s') : Sound s' := by
  rcases step_cases hs h with ⟨key, _, hcl⟩ | ⟨svc, s₁, order, _, hcl, hpub⟩
  · exact hcl.sound hs
  · exact hpub.sound (hcl.sound hs)

/-- Every state a run of returning calls reaches is sound. -/
theorem sound_of_reachable (h : (returningSystem Call.UpdateOrDelete).Reachable s) : Sound s :=
  h.invariant sound_init fun _ _ _ hI hst => sound_step hI hst

end EProxy
