import EProxy.Manager.Removal
import EProxy.Manager.Touches

/-!
# Two services, two orders

The work queue gives no order between keys, so `DeleteService(kA)` and
`UpdateService(svcB)` for two services may run either way round. The frontends that are
in `serviceMap` afterwards are computed here from those before, one formula for each
order (`deleted_then_updated`, `updated_then_deleted`).

`DeleteService` works from the frontends it remembers of A, whoever they belong to by
now. If `svcB` asks for one of them (it was given the cluster IP that A held), the
order that deletes last takes it away from B. That is the only way to tell the orders
apart: they agree exactly when A and `svcB` have no frontend in common
(`delete_update_commute_iff`).
-/

namespace EProxy

open Framework

variable {s s₁ s' : ServiceManager} {key : String} {svc : Service} {order : List Ports}

/-- The frontend is in `serviceMap`. -/
def ServiceManager.HasFrontend (s : ServiceManager) (f : Service4Key) : Prop :=
  (s.maps.frontend f).isSome

instance (s : ServiceManager) (f : Service4Key) : Decidable (s.HasFrontend f) :=
  inferInstanceAs (Decidable ((s.maps.frontend f).isSome = true))

/-! ### One operation -/

/-- After `DeleteService` the frontends of the service that was live are gone. -/
theorem Cleared.hasFrontend_iff (h : Cleared s key s') (f : Service4Key) :
    s'.HasFrontend f ↔ f ∉ s.frontendsAt key ∧ s.HasFrontend f := by
  unfold ServiceManager.HasFrontend
  rcases h with ⟨hnone, rfl⟩ | ⟨svc, order, h⟩
  · rw [ServiceManager.frontendsAt, hnone]
    simp
  · -- the keys that are deleted are the frontends, in the order the ports were visited
    have hmem : f ∈ order.map svc.frontendKey ↔ f ∈ svc.frontends := (h.perm.map _).mem_iff
    rw [h.maps, fold_frontend_deleteScript, frontendsAt_of_live h.live]
    by_cases hf : f ∈ svc.frontends
    · rw [if_pos (hmem.mpr hf)]
      simp [hf]
    · rw [if_neg (hf ∘ hmem.mp)]
      simp [hf]

/-- After `AppendService` the frontends of the service are there. -/
theorem Publishes.hasFrontend_iff (h : Publishes s svc order s') (hm : s.maps.NonNil)
    (f : Service4Key) : s'.HasFrontend f ↔ f ∈ svc.frontends ∨ s.HasFrontend f := by
  -- what is written is the allocated object, which differs in its id only
  have hmem : f ∈ order.map (s.allocated svc).frontendKey ↔ f ∈ svc.frontends := by
    have hkey : order.map (s.allocated svc).frontendKey = order.map svc.frontendKey :=
      List.map_congr_left fun port _ => allocated_frontendKey ⟨s, []⟩ svc port
    rw [hkey]
    exact (h.perm.map _).mem_iff
  unfold ServiceManager.HasFrontend
  rw [h.maps, fold_frontend_appendScript _ _ hm]
  by_cases hf : f ∈ svc.frontends
  · rw [if_pos (hmem.mpr hf)]
    simp [hf]
  · rw [if_neg (hf ∘ hmem.mp)]
    simp [hf]

/-- After `UpdateService` the frontends are the new ones, and the others but for those
of the old service. -/
theorem updated_hasFrontend_iff (hs : Sound s) {env : Env}
    (h : (s.invoke env (.updateService svc)).1 = .ret ()) (f : Service4Key) :
    (s.invoke env (.updateService svc)).2.mgr.HasFrontend f ↔
      f ∈ svc.frontends ∨ (f ∉ s.frontendsAt svc.serviceKey ∧ s.HasFrontend f) := by
  obtain ⟨s₁, order, hcl, hpub⟩ := invoke_updateService_ret hs h
  rw [hpub.hasFrontend_iff (hcl.nonNil hs.nonNil), hcl.hasFrontend_iff]

/-! ### Two operations -/

/-- A call leaves what is remembered under other keys. -/
theorem frontendsAt_invoke (hs : Sound s) (env : Env) (call : Call) (hne : key ≠ call.target) :
    (s.invoke env call).2.mgr.frontendsAt key = s.frontendsAt key := by
  unfold ServiceManager.frontendsAt
  rw [(invoke_touches hs env call).services hne]

section Orders

variable {kA : String} {svcB : Service} {e e' : Env}

/-- The frontends when B comes last. -/
theorem deleted_then_updated (hs : Sound s) (hne : kA ≠ svcB.serviceKey)
    (h : (s.invoke e (.deleteService kA)).1 = .ret ())
    (h' : ((s.invoke e (.deleteService kA)).2.mgr.invoke e' (.updateService svcB)).1 = .ret ())
    (f : Service4Key) :
    ((s.invoke e (.deleteService kA)).2.mgr.invoke e' (.updateService svcB)).2.mgr.HasFrontend f ↔
      f ∈ svcB.frontends ∨ (f ∉ s.frontendsAt svcB.serviceKey ∧
        f ∉ s.frontendsAt kA ∧ s.HasFrontend f) := by
  have hs₁ : Sound (s.invoke e (.deleteService kA)).2.mgr := (invoke_touches hs e _).sound hs
  rw [updated_hasFrontend_iff hs₁ h', (invoke_deleteService_ret hs h).hasFrontend_iff,
    frontendsAt_invoke hs e (.deleteService kA) hne.symm]

/-- The frontends when A comes last: whatever A had is gone, also where B has it. -/
theorem updated_then_deleted (hs : Sound s) (hne : kA ≠ svcB.serviceKey)
    (h : (s.invoke e (.updateService svcB)).1 = .ret ())
    (h' : ((s.invoke e (.updateService svcB)).2.mgr.invoke e' (.deleteService kA)).1 = .ret ())
    (f : Service4Key) :
    ((s.invoke e (.updateService svcB)).2.mgr.invoke e' (.deleteService kA)).2.mgr.HasFrontend f ↔
      f ∉ s.frontendsAt kA ∧ (f ∈ svcB.frontends ∨
        (f ∉ s.frontendsAt svcB.serviceKey ∧ s.HasFrontend f)) := by
  have hs₁ : Sound (s.invoke e (.updateService svcB)).2.mgr := (invoke_touches hs e _).sound hs
  rw [(invoke_deleteService_ret hs₁ h').hasFrontend_iff, updated_hasFrontend_iff hs h,
    frontendsAt_invoke hs e (.updateService svcB) hne]

end Orders

/-- **Exactly when work on two services commutes.** In every state that calls of
`UpdateService` and `DeleteService` reach, for every two keys and whatever the four
calls meet, when all four return: the two orders leave the same frontends, those of B
among them, exactly when `svcB` asks for no frontend that is remembered of A; and any that
it does ask for is gone when A is deleted last. -/
theorem delete_update_commute_iff (hreach : (managerSystem Call.UpdateOrDelete).Reachable s)
    {kA : String} {svcB : Service} (hne : kA ≠ svcB.serviceKey) (d u u' d' : Env)
    (hd : (s.invoke d (.deleteService kA)).1 = .ret ())
    (hu : ((s.invoke d (.deleteService kA)).2.mgr.invoke u (.updateService svcB)).1 = .ret ())
    (hu' : (s.invoke u' (.updateService svcB)).1 = .ret ())
    (hd' : ((s.invoke u' (.updateService svcB)).2.mgr.invoke d' (.deleteService kA)).1 = .ret ()) :
    (((∀ f, ((s.invoke d (.deleteService kA)).2.mgr.invoke u
          (.updateService svcB)).2.mgr.HasFrontend f ↔
        ((s.invoke u' (.updateService svcB)).2.mgr.invoke d'
          (.deleteService kA)).2.mgr.HasFrontend f) ∧
      ∀ f ∈ svcB.frontends, ((s.invoke u' (.updateService svcB)).2.mgr.invoke d'
        (.deleteService kA)).2.mgr.HasFrontend f) ↔
    ∀ f ∈ svcB.frontends, f ∉ s.frontendsAt kA) ∧
    ∀ f ∈ svcB.frontends, f ∈ s.frontendsAt kA →
      ¬ ((s.invoke u' (.updateService svcB)).2.mgr.invoke d'
        (.deleteService kA)).2.mgr.HasFrontend f := by
  have hs := sound_of_calls hreach
  have hlast := updated_then_deleted hs hne hu' hd'
  refine ⟨?_, fun f _ hshared hthere => ((hlast f).mp hthere).1 hshared⟩
  constructor
  · -- deleting last leaves nothing of A, and B's frontends are there
    rintro ⟨-, hall⟩ f hf
    exact ((hlast f).mp (hall f hf)).1
  · intro hdisj
    refine ⟨fun f => ?_, fun f hf => (hlast f).mpr ⟨hdisj f hf, Or.inl hf⟩⟩
    rw [deleted_then_updated hs hne hd hu, hlast]
    -- the two sides differ on frontends that are both B's new ones and A's
    have hf := hdisj f
    tauto

theorem reachable_idlePublished : (managerSystem Call.UpdateOrDelete).Reachable idlePublished :=
  (System.reachable_init (managerSystem Call.UpdateOrDelete)).step
    (l := ⟨.updateService idleService, .calm⟩) ⟨trivial, rfl⟩

/-- A service of the same name elsewhere, with another cluster IP. -/
def idleNeighbour : Service := { idleService with ns := "other", ipAddress := [10, 96, 0, 12] }

/-- Its frontend is there when the idle service is deleted after it. -/
theorem delete_update_commute_neighbour :
    ((idlePublished.invoke .calm (.updateService idleNeighbour)).2.mgr.invoke .calm
      (.deleteService "default/idle")).2.mgr.HasFrontend ⟨0x0c00600a, 0x5000, 6, 0⟩ := by
  have hne : "default/idle" ≠ idleNeighbour.serviceKey := by decide
  exact ((delete_update_commute_iff reachable_idlePublished hne .calm .calm .calm .calm
    (by decide) (by decide) (by decide) (by decide)).1.mpr (by decide)).2 _ (by decide)

/-- A service that is given the cluster IP of the idle service. -/
def idleSuccessor : Service := { idleService with name := "next" }

/-- The order that deletes last leaves the successor without its frontend; the other
order keeps it. All four calls return. -/
theorem successor_loses_frontend :
    (managerSystem Call.UpdateOrDelete).Reachable idlePublished ∧
      "default/idle" ≠ idleSuccessor.serviceKey ∧
      (idlePublished.invoke .calm (.deleteService "default/idle")).1 = .ret () ∧
      ((idlePublished.invoke .calm (.deleteService "default/idle")).2.mgr.invoke .calm
        (.updateService idleSuccessor)).1 = .ret () ∧
      (idlePublished.invoke .calm (.updateService idleSuccessor)).1 = .ret () ∧
      ((idlePublished.invoke .calm (.updateService idleSuccessor)).2.mgr.invoke .calm
        (.deleteService "default/idle")).1 = .ret () ∧
      (⟨0x0900600a, 0x5000, 6, 0⟩ : Service4Key) ∈ idleSuccessor.frontends ∧
      ((idlePublished.invoke .calm (.deleteService "default/idle")).2.mgr.invoke .calm
        (.updateService idleSuccessor)).2.mgr.HasFrontend ⟨0x0900600a, 0x5000, 6, 0⟩ ∧
      ¬ ((idlePublished.invoke .calm (.updateService idleSuccessor)).2.mgr.invoke .calm
        (.deleteService "default/idle")).2.mgr.HasFrontend ⟨0x0900600a, 0x5000, 6, 0⟩ :=
  ⟨reachable_idlePublished, by decide, by decide, by decide, by decide, by decide, by decide,
    by decide, by decide⟩

end EProxy
