import Mathlib.Data.List.Nodup
import EProxy.Manager.Steps

/-!
# Removing a service

`AppendService` writes the backends of a service under positions `1` to `n`;
`DeleteService` removes positions `0` to `n - 1`, and does so again for every port.
The first missing key makes the visitor fail, and `Iter` turns that into a panic.

`RemovedSafely` is what a removal is for: the call returns and leaves nothing of what
`AppendService` wrote. `deleteService_removes_iff` says exactly when it is met, in any
state that runs reach. When no service of the run has more than 65535 endpoints
position `0` is never written (`ZeroFree`), and a service that has a port and an
endpoint can neither be removed nor updated any more (`published_forever`).
-/

namespace EProxy

open Framework Machine

/-! ### Which deletions run through -/

section Deletable

variable {svc : Service} {m : Maps}

theorem nodup_deleteEndpointOps (hn : svc.endpoints.length ≤ 65535) :
    (deleteEndpointOps svc 0 svc.endpoints.length).Nodup := by
  refine List.Nodup.map_on (fun i hi j hj heq => ?_) List.nodup_range'
  rw [List.mem_range'_1] at hi hj
  exact (slot_inj (by omega) (by omega)
    (Endpoint4Key.mk.inj (MapOp.deleteEndpoint.inj heq))).2

theorem nodup_deletePortOps (hn : svc.endpoints.length ≤ 65535) (port : Ports) :
    (deletePortOps svc port).Nodup := by
  refine List.nodup_cons.mpr ⟨fun hmem => ?_, nodup_deleteEndpointOps hn⟩
  obtain ⟨i, -, heq⟩ := List.mem_map.mp hmem
  exact absurd heq (by simp)

/-- Two ports delete the same endpoints, if there are any. -/
theorem disjoint_deletePortOps_iff (p q : Ports) :
    (deletePortOps svc p).Disjoint (deletePortOps svc q) ↔
      svc.frontendKey p ≠ svc.frontendKey q ∧ svc.endpoints = [] := by
  constructor
  · intro hdis
    refine ⟨fun heq => ?_, ?_⟩
    · refine hdis List.mem_cons_self ?_
      rw [heq]
      exact List.mem_cons_self
    · -- both ports delete position `0` of the service
      by_contra hne
      have hpos : 0 < svc.endpoints.length := List.length_pos_iff.mpr hne
      have hmem : MapOp.deleteEndpoint ⟨slot svc.serviceId 0⟩ ∈
          deleteEndpointOps svc 0 svc.endpoints.length :=
        List.mem_map.mpr ⟨0, List.mem_range'_1.mpr ⟨Nat.le_refl 0, by omega⟩, rfl⟩
      exact hdis (List.mem_cons_of_mem _ hmem) (List.mem_cons_of_mem _ hmem)
  · rintro ⟨hne, hnil⟩
    have hp : ∀ port, deletePortOps svc port = [.deleteService (svc.frontendKey port)] := by
      intro port
      rw [deletePortOps, hnil]
      rfl
    rw [hp p, hp q, List.singleton_disjoint, List.mem_singleton]
    exact fun heq => hne (MapOp.deleteService.inj heq)

theorem nodup_deleteScript_iff (hn : svc.endpoints.length ≤ 65535) (order : List Ports) :
    (deleteScript svc order).Nodup ↔
      (order.map svc.frontendKey).Nodup ∧ (svc.endpoints = [] ∨ order.length ≤ 1) := by
  have hpair : (deleteScript svc order).Nodup ↔ order.Pairwise fun p q =>
      svc.frontendKey p ≠ svc.frontendKey q ∧ svc.endpoints = [] := by
    rw [deleteScript, List.nodup_flatMap]
    refine ⟨fun h => h.2.imp fun hd => (disjoint_deletePortOps_iff _ _).mp hd, fun h => ?_⟩
    exact ⟨fun p _ => nodup_deletePortOps hn p,
      h.imp fun hd => (disjoint_deletePortOps_iff _ _).mpr hd⟩
  rw [hpair, List.Nodup, List.pairwise_map]
  by_cases hnil : svc.endpoints = []
  · simp [hnil]
  · -- with an endpoint no two ports may be visited at all
    simp only [hnil, and_false, false_or]
    rcases order with _ | ⟨p, _ | ⟨q, rest⟩⟩
    · simp
    · simp
    · exact iff_of_false (fun h => List.rel_of_pairwise_cons h List.mem_cons_self)
        fun h => absurd h.2 (by simp)

theorem present_deleteScript_iff (order : List Ports) :
    (∀ op ∈ deleteScript svc order, op.Present m) ↔
      ∀ p ∈ order, (m.frontend (svc.frontendKey p)).isSome ∧
        ∀ i < svc.endpoints.length, (m.backend ⟨slot svc.serviceId i⟩).isSome := by
  constructor
  · intro h p hp
    have hport : ∀ op ∈ deletePortOps svc p, op.Present m := fun op hop =>
      h op (List.mem_flatMap.mpr ⟨p, hp, hop⟩)
    refine ⟨hport _ List.mem_cons_self, fun i hi => hport (.deleteEndpoint _) ?_⟩
    exact List.mem_cons_of_mem _
      (List.mem_map.mpr ⟨i, List.mem_range'_1.mpr ⟨Nat.zero_le i, by omega⟩, rfl⟩)
  · intro h op hop
    obtain ⟨p, hp, hop⟩ := List.mem_flatMap.mp hop
    obtain ⟨hfront, hback⟩ := h p hp
    rcases List.mem_cons.mp hop with rfl | hop
    · exact hfront
    · obtain ⟨i, hi, rfl⟩ := List.mem_map.mp hop
      exact hback i (by rw [List.mem_range'_1] at hi; omega)

/-- **When `DeleteService` meets no missing key.** -/
theorem deletable_iff (hn : svc.endpoints.length ≤ 65535) :
    Deletable m svc ↔
      (svc.portList.map svc.frontendKey).Nodup ∧
      (svc.endpoints = [] ∨ svc.portList.length ≤ 1) ∧
      ∀ p ∈ svc.portList, (m.frontend (svc.frontendKey p)).isSome ∧
        ∀ i < svc.endpoints.length, (m.backend ⟨slot svc.serviceId i⟩).isSome := by
  rw [Deletable, nodup_deleteScript_iff hn, present_deleteScript_iff, and_assoc]

end Deletable

variable {env : Env} {w : World} {s s' : ServiceManager} {key : String} {svc : Service}

/-- **When `DeleteService` of a live service returns**: no operation is failed by the
kernel and no key is missing. -/
theorem deleteService_returned_iff (hm : w.mgr.maps.NonNil)
    (hlive : w.mgr.services key = some svc) (hports : svc.ports.isSome)
    (haddr : svc.Addressable) :
    ((deleteService env key).run w).1.Returned ↔
      Spares env.fault w.journal.length svc.opCount ∧ Deletable w.mgr.maps svc := by
  obtain ⟨set, hset⟩ := Option.isSome_iff_exists.mp hports
  have hperm := visit_perm_portList env.deleteOrder hset
  have hnone := exec_eq_none_iff bpfMachine env.fault w.log
    (deleteScript svc (env.deleteOrder.visit set.items))
  rw [length_deleteScript hperm] at hnone
  rw [deleteService_run hm hlive hset haddr, ← accepts_deleteScript_iff hperm]
  refine Iff.trans ?_ hnone
  -- the method returns exactly when its script reports no error
  rcases bpfMachine.exec env.fault w.log
    (deleteScript svc (env.deleteOrder.visit set.items)) with ⟨_ | e, st⟩
  · exact iff_of_true trivial rfl
  · exact iff_of_false id (by simp)

/-! ### Safe removal -/

/-- The call `DeleteService(key)` returns and leaves nothing of the service `svc` held
under `key`: no frontend of a port, none of the backends written for it, and no entry
in `services`. -/
def RemovedSafely (s : ServiceManager) (env : Env) (key : String) (svc : Service) : Prop :=
  (s.invoke env (.deleteService key)).1 = .ret () ∧
  (∀ p ∈ svc.portList,
    (s.invoke env (.deleteService key)).2.mgr.maps.frontend (svc.frontendKey p) = none ∧
    ∀ i, 1 ≤ i → i ≤ svc.endpoints.length →
      (s.invoke env (.deleteService key)).2.mgr.maps.backend ⟨slot svc.serviceId i⟩ = none) ∧
  (s.invoke env (.deleteService key)).2.mgr.services key = none

/-- What the maps must hold for a safe removal: the service has no port; or its
frontends are pairwise different and present, and it has no endpoint, or one port with
positions `0` to `n - 1` present and position `n` absent. -/
def Removable (m : Maps) (svc : Service) : Prop :=
  svc.portList = [] ∨
  (svc.portList.map svc.frontendKey).Nodup ∧
  (∀ p ∈ svc.portList, (m.frontend (svc.frontendKey p)).isSome) ∧
  (svc.endpoints = [] ∨
    svc.portList.length = 1 ∧
    (∀ i < svc.endpoints.length, (m.backend ⟨slot svc.serviceId i⟩).isSome) ∧
    m.backend ⟨slot svc.serviceId svc.endpoints.length⟩ = none)

/-- A removable service passes all deletions, and the last position written for it is
not in the way. -/
theorem removable_iff (hn : svc.endpoints.length ≤ 65535) (m : Maps) :
    Removable m svc ↔ Deletable m svc ∧
      (svc.portList ≠ [] → svc.endpoints ≠ [] →
        m.backend ⟨slot svc.serviceId svc.endpoints.length⟩ = none) := by
  rw [deletable_iff hn, Removable]
  rcases hports : svc.portList with _ | ⟨p, rest⟩
  · simp
  · by_cases hnil : svc.endpoints = []
    · simp [hnil]
    · have hlen : (p :: rest).length = 1 ↔ (p :: rest).length ≤ 1 := by
        simp only [List.length_cons]
        omega
      simp only [hnil, hlen, false_or, ne_eq, not_false_eq_true, reduceCtorEq, forall_const]
      constructor
      · rintro ⟨hnd, hfront, hone, hback, hlast⟩
        exact ⟨⟨hnd, hone, fun q hq => ⟨hfront q hq, hback⟩⟩, hlast⟩
      · rintro ⟨⟨hnd, hone, hall⟩, hlast⟩
        exact ⟨hnd, fun q hq => (hall q hq).1, hone, (hall p List.mem_cons_self).2, hlast⟩

/-- After a removal with a port to visit the positions before the last are gone, and the
last one is as it was. -/
theorem Removes.backend_apply {order : List Ports} (h : Removes s key svc order s')
    (hn : svc.endpoints.length ≤ 65535) (hne : svc.portList ≠ []) {i : ℕ}
    (hi : i ≤ svc.endpoints.length) :
    s'.maps.backend ⟨slot svc.serviceId i⟩ =
      if i < svc.endpoints.length then none else s.maps.backend ⟨slot svc.serviceId i⟩ := by
  have hiff : (order ≠ [] ∧ ∃ j < svc.endpoints.length,
      (⟨slot svc.serviceId i⟩ : Endpoint4Key) = ⟨slot svc.serviceId j⟩) ↔
      i < svc.endpoints.length := by
    constructor
    · rintro ⟨-, j, hj, heq⟩
      have hij := (slot_inj (by omega) (by omega) (Endpoint4Key.mk.inj heq)).2
      omega
    · intro hlt
      refine ⟨fun hnil => hne ?_, i, hlt, rfl⟩
      have hperm := h.perm
      rw [hnil] at hperm
      exact List.nil_perm.mp hperm
  rw [h.maps, fold_backend_deleteScript, if_congr hiff rfl rfl]

/-- What is left in the maps by a deletion that ran through. -/
theorem Removes.leaves {order : List Ports} (h : Removes s key svc order s')
    (hn : svc.endpoints.length ≤ 65535) :
    (∀ p ∈ svc.portList, s'.maps.frontend (svc.frontendKey p) = none ∧
      ∀ i, 1 ≤ i → i ≤ svc.endpoints.length →
        s'.maps.backend ⟨slot svc.serviceId i⟩ = none) ↔
    (svc.portList ≠ [] → svc.endpoints ≠ [] →
      s.maps.backend ⟨slot svc.serviceId svc.endpoints.length⟩ = none) := by
  constructor
  · intro hall hne heps
    obtain ⟨p, hp⟩ := List.exists_mem_of_ne_nil _ hne
    have hlast := (hall p hp).2 svc.endpoints.length (List.length_pos_iff.mpr heps) (Nat.le_refl _)
    rwa [h.backend_apply hn hne (Nat.le_refl _), if_neg (Nat.lt_irrefl _)] at hlast
  · intro hlast p hp
    refine ⟨?_, fun i h₁ h₂ => ?_⟩
    · rw [h.maps, fold_frontend_deleteScript, if_pos]
      exact List.mem_map.mpr ⟨p, h.perm.mem_iff.mpr hp, rfl⟩
    · have hne := List.ne_nil_of_mem hp
      rw [h.backend_apply hn hne h₂]
      split
      · rfl
      · -- the last position is the one the removal never asks for
        next hge =>
        obtain rfl : i = svc.endpoints.length := by omega
        exact hlast hne (List.length_pos_iff.mp h₁)

/-- **Exactly when a removal is complete and safe.** In every state reached by calls
that return, for every live service with at most 65535 endpoints, in every visiting
order, and with a kernel that fails no operation by itself. -/
theorem deleteService_removes_iff
    (hreach : (returningSystem Call.UpdateOrDelete).Reachable s)
    (hlive : s.services key = some svc) (hn : svc.endpoints.length ≤ 65535)
    (env : Env) (hfault : ∀ i, env.fault i = none) :
    RemovedSafely s env key svc ↔ Removable s.maps svc := by
  have hs := sound_of_reachable hreach
  have hret : (s.invoke env (.deleteService key)).1 = .ret () ↔ Deletable s.maps svc := by
    refine (Go.run_discard_fst_eq_ret_iff _ _).trans
      ((deleteService_returned_iff (w := ⟨s, []⟩) hs.nonNil hlive (hs.ports hlive)
        (hs.addressable hlive)).trans ?_)
    exact and_iff_right fun i _ _ => hfault i
  rw [removable_iff hn, RemovedSafely, hret]
  refine and_congr_right fun hdel => ?_
  -- the call returned, so what it left is the fold of the whole script
  rcases invoke_deleteService_ret hs (hret.mpr hdel) with ⟨hnone, _⟩ | ⟨svc', order, hrem⟩
  · rw [hlive] at hnone
    exact absurd hnone (by simp)
  · obtain rfl : svc = svc' := Option.some.inj (hlive.symm.trans hrem.live)
    rw [hrem.leaves hn]
    exact and_iff_left (by rw [hrem.services, Table.erase_self])

/-- A service with one port and no endpoint yet. -/
def idleService : Service :=
  ⟨"idle", "default", 0, [10, 96, 0, 9], some (Typed.new.add ⟨.tcp, 80, 8080⟩), []⟩

/-- The manager that has published the idle service. -/
def idlePublished : ServiceManager :=
  ((newServiceManager Maps.empty).invoke .calm (.updateService idleService)).2.mgr

/-- The idle service is removed by `DeleteService`. -/
theorem deleteService_removes_idle :
    RemovedSafely idlePublished .calm "default/idle" { idleService with serviceId := 1 } := by
  have hstep : (returningSystem Call.UpdateOrDelete).step (newServiceManager Maps.empty)
      ⟨.updateService idleService, .calm⟩ idlePublished := ⟨trivial, by decide, rfl⟩
  refine (deleteService_removes_iff ((System.reachable_init _).step hstep) (by decide) (by decide)
    .calm fun _ => rfl).mpr (Or.inr ⟨by decide, by decide, Or.inl rfl⟩)

/-- A service with one port and one endpoint. -/
def webService : Service :=
  ⟨"web", "default", 0, [10, 96, 0, 10], some (Typed.new.add ⟨.tcp, 80, 8080⟩), [0x0100f40a]⟩

/-- The web service is published in an empty manager and cannot be removed: position
`0` was never written. -/
theorem deleteService_panics_on_web :
    ∃ s, (returningSystem Call.UpdateOrDelete).Reachable s ∧
      s.services "default/web" = some { webService with serviceId := 1 } ∧
      (s.invoke .calm (.deleteService "default/web")).1 = .panic (.logged .errKeyNotExist) ∧
      ¬ RemovedSafely s .calm "default/web" { webService with serviceId := 1 } := by
  have hstep : (returningSystem Call.UpdateOrDelete).step (newServiceManager Maps.empty)
      ⟨.updateService webService, .calm⟩
      ((newServiceManager Maps.empty).invoke .calm (.updateService webService)).2.mgr :=
    ⟨trivial, by decide, rfl⟩
  refine ⟨_, (System.reachable_init _).step hstep, by decide, by decide, fun h => ?_⟩
  exact absurd h.1 (by decide)

/-! ### Position zero -/

/-- `UpdateService` of services with at most 65535 endpoints, and `DeleteService`. -/
def Call.Fits : Call → Prop
  | .updateService svc => svc.endpoints.length ≤ 65535
  | .deleteService _ => True
  | _ => False

theorem Call.Fits.updateOrDelete {call : Call} (h : call.Fits) : call.UpdateOrDelete := by
  cases call <;> first | exact trivial | exact h.elim

/-- Position `0` of no service is written. -/
def ZeroFree (s : ServiceManager) : Prop := ∀ id, s.maps.backend ⟨slot id 0⟩ = none

variable {order : List Ports} {s₁ : ServiceManager}

theorem Removes.zeroFree (h : Removes s key svc order s') (hz : ZeroFree s) : ZeroFree s' := by
  intro id
  rw [h.maps, fold_backend_deleteScript, hz id, ite_self]

theorem Cleared.zeroFree (h : Cleared s key s') (hz : ZeroFree s) : ZeroFree s' := by
  rcases h with ⟨-, rfl⟩ | ⟨svc, order, h⟩
  · exact hz
  · exact h.zeroFree hz

theorem Publishes.zeroFree (h : Publishes s svc order s') (hn : svc.endpoints.length ≤ 65535)
    (hz : ZeroFree s) : ZeroFree s' := by
  intro id
  have hlen : (s.allocated svc).endpoints = svc.endpoints := allocated_endpoints ⟨s, []⟩ svc
  rw [h.maps, fold_backend_appendScript_other, hz id]
  -- positions count from one, and do not wrap around to zero
  intro j h₁ h₂ heq
  rw [hlen] at h₂
  have hj := (slot_inj (by omega) (by omega) (Endpoint4Key.mk.inj heq)).2
  omega

/-- A removal that ran through met position `0`, if there was a port to visit and an
endpoint to remove. -/
theorem Removes.idle (h : Removes s key svc order s') (hz : ZeroFree s) :
    svc.portList = [] ∨ svc.endpoints = [] := by
  by_contra hne
  rw [not_or] at hne
  obtain ⟨p, hp⟩ := List.exists_mem_of_ne_nil _ hne.1
  have hzero := ((present_deleteScript_iff svc.portList).mp h.deletable.2 p hp).2 0
    (List.length_pos_iff.mpr hne.2)
  rw [hz] at hzero
  exact absurd hzero (by simp)

theorem fits_step_invariant {l : Invocation} (hI : Sound s ∧ ZeroFree s)
    (h : (returningSystem Call.Fits).step s l s') : Sound s' ∧ ZeroFree s' := by
  obtain ⟨hs, hz⟩ := hI
  rcases allowed_step_cases Call.Fits.updateOrDelete hs h with ⟨key, _, hcl⟩ |
    ⟨svc, s₁, order, _, hn, hcl, hpub⟩
  · exact ⟨hcl.sound hs, hcl.zeroFree hz⟩
  · exact ⟨hpub.sound (hcl.sound hs), hpub.zeroFree hn (hcl.zeroFree hz)⟩

/-- Runs of services that fit never write position `0`. -/
theorem zeroFree_of_reachable (h : (returningSystem Call.Fits).Reachable s) :
    Sound s ∧ ZeroFree s :=
  h.invariant ⟨sound_init, fun _ => rfl⟩ fun _ _ _ hI hst => fits_step_invariant hI hst

/-- A step of a run leaves a service with a port and an endpoint where it is. -/
theorem fits_step_keeps {l : Invocation} (hI : Sound s ∧ ZeroFree s)
    (hport : svc.portList ≠ []) (heps : svc.endpoints ≠ [])
    (h : (returningSystem Call.Fits).step s l s') (hlive : s.services key = some svc) :
    s'.services key = some svc := by
  obtain ⟨hs, hz⟩ := hI
  -- no key that gets cleared is the one of such a service
  have hkeep : ∀ {k s₁}, Cleared s k s₁ → k ≠ key := by
    intro k s₁ hcl hk
    rw [hk] at hcl
    rcases hcl with ⟨hnone, _⟩ | ⟨svc', order, hrem⟩
    · rw [hlive] at hnone
      exact absurd hnone (by simp)
    · obtain rfl : svc = svc' := Option.some.inj (hlive.symm.trans hrem.live)
      exact (hrem.idle hz).elim hport heps
  rcases allowed_step_cases Call.Fits.updateOrDelete hs h with ⟨k, _, hcl⟩ |
    ⟨svc', s₁, order, _, _, hcl, hpub⟩
  · rw [hcl.services_apply, if_neg (hkeep hcl).symm, hlive]
  · rw [hpub.services_apply, if_neg (hkeep hcl).symm, hcl.services_apply,
      if_neg (hkeep hcl).symm, hlive]

/-- **Published for ever.** A run of calls that return, on services that fit, never
takes away or replaces a service that has a port and an endpoint: a call that would
have to panics. -/
theorem published_forever {tr : List (Transition ServiceManager Invocation)}
    (hreach : (returningSystem Call.Fits).Reachable s)
    (hrun : Run (returningSystem Call.Fits) s tr s')
    (hport : svc.portList ≠ []) (heps : svc.endpoints ≠ [])
    (hlive : s.services key = some svc) : s'.services key = some svc := by
  have hinv := hrun.invariant
    (I := fun s => (Sound s ∧ ZeroFree s) ∧ s.services key = some svc)
    ⟨zeroFree_of_reachable hreach, hlive⟩
    fun a l b hI hst => ⟨fits_step_invariant hI.1 hst, fits_step_keeps hI.1 hport heps hst hI.2⟩
  exact hinv.1.2

end EProxy
