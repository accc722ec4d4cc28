import EProxy.Manager.Removal

/-!
# Failed map operations and the service cache

The rule of the design notes is that a failed update of the BPF maps leaves the
service cache alone. `Atomic` is that rule for one call and one pattern of failures:
after a failed map operation `services` is what it was before, whether the call
returned or panicked, and a call that returns had no failure and did what it was asked
to do.

`AppendService` and `DeleteService` touch `services` after their last map operation,
so they are atomic. `UpdateService` is one after the other, and between the two the
service is gone from the cache. `atomic_iff_not_torn` states precisely when that
shows: the old service was removed and a write for the new one failed.
-/

namespace EProxy

open Framework Machine

/-- The three methods that change a service. -/
def Call.OnService : Call → Prop
  | .updateService _ | .appendService _ | .deleteService _ => True
  | _ => False

/-- The services a call that did its work leaves. For an update of a service that was
stored under another key, nothing is said about the other keys. -/
def Reflects (s : ServiceManager) : Call → Table String Service → Prop
  | .updateService svc, t =>
    t svc.serviceKey = some (s.allocated svc) ∧
    ((∀ old, s.services svc.serviceKey = some old → old.serviceKey = svc.serviceKey) →
      ∀ k, k ≠ svc.serviceKey → t k = s.services k)
  | .appendService svc, t => t = s.services.set svc.serviceKey (s.allocated svc)
  | .deleteService key, t => t = s.services.erase key
  | _, _ => True

/-- A failed map operation leaves the services as they were; a call that returns had
none and reflects the request. -/
def Atomic (s : ServiceManager) (env : Env) (call : Call) : Prop :=
  ((∃ ev ∈ (s.invoke env call).2.journal, ev.err ≠ none) →
    (s.invoke env call).2.mgr.services = s.services) ∧
  ((s.invoke env call).1 = .ret () →
    (∀ ev ∈ (s.invoke env call).2.journal, ev.err = none) ∧
    Reflects s call (s.invoke env call).2.mgr.services)

/-- From the `n`-th operation on, the script that removes `svc` runs through. -/
structure CanDelete (m : Maps) (env : Env) (n : ℕ) (svc : Service) : Prop where
  ports : svc.ports.isSome
  addressable : svc.Addressable
  spares : Spares env.fault n svc.opCount
  deletable : Deletable m svc

/-- An update that removes the old service and then fails at a map operation of the
new one. -/
def Torn (s : ServiceManager) (env : Env) : Call → Prop
  | .updateService svc =>
    ∃ old d, s.services svc.serviceKey = some old ∧ s.services old.serviceKey = some d ∧
      CanDelete s.maps env 0 d ∧
      svc.ports.isSome ∧ svc.Addressable ∧ ¬ Spares env.fault d.opCount svc.opCount
  | _ => False

/-! ### The two halves of an update -/

/-- No operation issued so far failed. -/
def World.Clean (w : World) : Prop := ∀ ev ∈ w.journal, ev.err = none

variable {env : Env} {w : World}

/-- `DeleteService` finds nothing to do; or removes the service; or panics and leaves
the services alone. -/
theorem deleteService_outcome (env : Env) (hm : w.mgr.maps.NonNil) (hclean : w.Clean)
    (key : String) :
    (w.mgr.services key = none ∧ (deleteService env key).run w = (.ret none, w)) ∨
    (∃ d w', w.mgr.services key = some d ∧ CanDelete w.mgr.maps env w.journal.length d ∧
      (deleteService env key).run w = (.ret none, w') ∧ w'.Clean ∧
      w'.mgr.services = w.mgr.services.erase key ∧
      w'.mgr.cacheSerivceId = w.mgr.cacheSerivceId ∧ w'.mgr.maps.NonNil ∧
      w'.journal.length = w.journal.length + d.opCount) ∨
    (∃ d p w', w.mgr.services key = some d ∧ ¬ CanDelete w.mgr.maps env w.journal.length d ∧
      (deleteService env key).run w = (.panic p, w') ∧
      w'.mgr.services = w.mgr.services) := by
  rcases deleteService_cases env hm key with h | ⟨d, set, st, hlive, hset, haddr, hx, hrun⟩ |
    ⟨d, p, hlive, hbad, hrun⟩ | ⟨d, set, e, st, hlive, hset, haddr, hx, hrun⟩
  · exact Or.inl h
  · have hperm := visit_perm_portList env.deleteOrder hset
    obtain ⟨hsp, hacc, hmem, hlen⟩ := exec_eq_none hx
    rw [length_deleteScript hperm] at hsp hlen
    have hst := (@exec_clean_iff _ _ _ bpfMachine env.fault w.log hclean
      (deleteScript d (env.deleteOrder.visit set.items))).mpr (by rw [hx])
    rw [hx] at hst
    have hnn : st.mem.NonNil := by
      rw [hmem]
      exact fold_nonNil hm _
    exact Or.inr (Or.inl ⟨d, _, hlive,
      ⟨by rw [hset]; rfl, haddr, hsp, (accepts_deleteScript_iff hperm _).mp hacc⟩,
      hrun, hst, rfl, rfl, hnn, hlen⟩)
  · -- the panic came before any map operation
    refine Or.inr (Or.inr ⟨d, p, w, hlive, fun hcan => ?_, hrun, rfl⟩)
    rcases hbad with hnone | hnot
    · exact absurd hcan.ports (by rw [hnone]; simp)
    · exact hnot hcan.addressable
  · -- the script failed, so it was not one that could run through
    refine Or.inr (Or.inr ⟨d, _, _, hlive, fun hcan => ?_, hrun, rfl⟩)
    have hret := (@deleteService_returned_iff env w key d hm hlive hcan.ports haddr).mpr
      ⟨hcan.spares, hcan.deletable⟩
    rw [hrun] at hret
    exact hret

/-- `AppendService` publishes the service; or panics and leaves the services alone,
after a failed operation exactly when there was something to write. -/
theorem appendService_outcome (env : Env) (hm : w.mgr.maps.NonNil) (hclean : w.Clean)
    (svc : Service) :
    (∃ r w', Spares env.fault w.journal.length svc.opCount ∧
      (appendService env svc).run w = (.ret r, w') ∧ w'.Clean ∧
      w'.mgr.services = w.mgr.services.set svc.serviceKey (w.mgr.allocated svc)) ∨
    (∃ p w', (appendService env svc).run w = (.panic p, w') ∧
      w'.mgr.services = w.mgr.services ∧
      (¬ w'.Clean ↔ svc.ports.isSome ∧ svc.Addressable ∧
        ¬ Spares env.fault w.journal.length svc.opCount)) := by
  have hperm : ∀ {set : Typed Ports}, svc.ports = some set →
      (env.appendOrder.visit set.items).Perm (w.allocated svc).portList := by
    intro set hset
    rw [allocated_portList]
    exact visit_perm_portList env.appendOrder hset
  rcases appendService_cases env hm svc with ⟨set, st, hset, haddr, hx, hrun⟩ | ⟨p, hbad, hrun⟩ |
    ⟨set, e, st, hset, haddr, hx, hrun⟩
  · obtain ⟨hsp, -, -, -⟩ := exec_eq_none hx
    rw [length_appendScript (hperm hset), allocated_opCount] at hsp
    have hst := (@exec_clean_iff _ _ _ bpfMachine env.fault w.log hclean
      (appendScript (w.allocated svc) (env.appendOrder.visit set.items))).mpr (by rw [hx])
    rw [hx] at hst
    exact Or.inl ⟨_, _, hsp, hrun, hst, rfl⟩
  · refine Or.inr ⟨p, _, hrun, rfl, iff_of_false (fun h => h hclean) ?_⟩
    rintro ⟨hports, haddr, -⟩
    rcases hbad with hnone | hnot
    · exact absurd hports (by rw [hnone]; simp)
    · exact hnot haddr
  · refine Or.inr ⟨_, _, hrun, rfl, iff_of_true ?_ ⟨by rw [hset]; rfl, haddr, ?_⟩⟩
    · intro hst
      have hnone := (@exec_clean_iff _ _ _ bpfMachine env.fault w.log hclean
        (appendScript (w.allocated svc) (env.appendOrder.visit set.items))).mp
        (by rw [hx]; exact hst)
      rw [hx] at hnone
      exact absurd hnone (by simp)
    · -- an update is never refused, so the failure is one of the pattern
      intro hsp
      have hnone := (exec_eq_none_iff bpfMachine env.fault w.log
        (appendScript (w.allocated svc) (env.appendOrder.visit set.items))).mpr
        ⟨by rw [length_appendScript (hperm hset), allocated_opCount]; exact hsp,
          accepts_appendScript _ _ _⟩
      rw [hx] at hnone
      exact absurd hnone (by simp)

/-! ### Calls -/

variable {s : ServiceManager} {call : Call} {w' : World}

/-- A call that returned without a failure. -/
theorem atomic_of_ret (hinv : s.invoke env call = (.ret (), w')) (hclean : w'.Clean)
    (hreflects : Reflects s call w'.mgr.services) : Atomic s env call := by
  rw [Atomic, hinv]
  exact ⟨fun ⟨ev, hev, herr⟩ => absurd (hclean ev hev) herr, fun _ => ⟨hclean, hreflects⟩⟩

/-- A call that panicked is atomic when it left the services alone or met no
failure. -/
theorem atomic_iff_of_panic {p : Panic MapError} (hinv : s.invoke env call = (.panic p, w')) :
    Atomic s env call ↔ (¬ w'.Clean → w'.mgr.services = s.services) := by
  rw [Atomic, hinv]
  have hfailed : (∃ ev ∈ w'.journal, ev.err ≠ none) ↔ ¬ w'.Clean := by
    simp [World.Clean]
  rw [hfailed]
  exact and_iff_left (fun h => absurd h (by simp))

theorem atomic_of_panic {p : Panic MapError} (hinv : s.invoke env call = (.panic p, w'))
    (hserv : w'.mgr.services = s.services) : Atomic s env call :=
  (atomic_iff_of_panic hinv).mpr fun _ => hserv

theorem atomic_appendService (hm : s.maps.NonNil) (env : Env) (svc : Service) :
    Atomic s env (.appendService svc) := by
  rcases @appendService_outcome ⟨s, []⟩ env hm (fun ev hev => absurd hev List.not_mem_nil) svc with
    ⟨r, w', _, hrun, hclean, hserv⟩ | ⟨p, w', hrun, hserv, _⟩
  · exact atomic_of_ret (Go.run_discard_ret hrun) hclean hserv
  · exact atomic_of_panic (Go.run_discard_panic hrun) hserv

theorem atomic_deleteService (hm : s.maps.NonNil) (env : Env) (key : String) :
    Atomic s env (.deleteService key) := by
  have hempty : (⟨s, []⟩ : World).Clean := fun ev hev => absurd hev List.not_mem_nil
  rcases @deleteService_outcome ⟨s, []⟩ env hm hempty key with
    ⟨hnone, hrun⟩ | ⟨d, w', _, _, hrun, hclean, hserv, _⟩ | ⟨d, p, w', _, _, hrun, hserv⟩
  · refine atomic_of_ret (Go.run_discard_ret hrun) hempty ?_
    funext k
    rw [Table.erase_apply]
    split
    · next hk => rw [hk]; exact hnone
    · rfl
  · exact atomic_of_ret (Go.run_discard_ret hrun) hclean hserv
  · exact atomic_of_panic (Go.run_discard_panic hrun) hserv

/-- An update with nothing to remove is an append. -/
theorem atomic_updateService_of_append (hm : s.maps.NonNil) (svc : Service)
    (hrun : (updateService env svc).run ⟨s, []⟩ =
      (appendService env svc >>= fun _ => (pure none : Mgr (Option MapError))).run ⟨s, []⟩) :
    Atomic s env (.updateService svc) := by
  rcases @appendService_outcome ⟨s, []⟩ env hm (fun ev hev => absurd hev List.not_mem_nil) svc with
    ⟨r, w', _, happ, hclean, hserv⟩ | ⟨p, w', happ, hserv, _⟩
  · refine atomic_of_ret (Go.run_discard_ret (hrun.trans (Go.run_bind_ret happ))) hclean ?_
    rw [hserv]
    exact ⟨Table.set_self _ _ _, fun _ k hk => Table.set_of_ne _ _ hk⟩
  · exact atomic_of_panic (Go.run_discard_panic (hrun.trans (Go.run_bind_panic happ))) hserv

theorem atomic_updateService_iff (hm : s.maps.NonNil) (env : Env) (svc : Service) :
    Atomic s env (.updateService svc) ↔ ¬ Torn s env (.updateService svc) := by
  have hempty : (⟨s, []⟩ : World).Clean := fun ev hev => absurd hev List.not_mem_nil
  cases hlive : s.services svc.serviceKey with
  | none =>
    refine iff_of_true (atomic_updateService_of_append hm svc
      (updateService_run_of_absent hlive)) ?_
    rintro ⟨old, d, hold, -⟩
    rw [hlive] at hold
    exact absurd hold (by simp)
  | some old =>
    have hrun := @updateService_run_of_live env ⟨s, []⟩ svc old hlive
    -- what the deletion did decides
    rcases @deleteService_outcome ⟨s, []⟩ env hm hempty old.serviceKey with
      ⟨hnone, hdel⟩ | ⟨d, w₁, hd, hcan, hdel, hclean₁, hserv₁, hcache₁, hm₁, hlen₁⟩ |
      ⟨d, p, w₁, hd, hcannot, hdel, hserv₁⟩
    · -- the old object names a key that is not live, and nothing is removed
      refine iff_of_true (atomic_updateService_of_append hm svc
        (hrun.trans (Go.run_bind_ret hdel))) ?_
      rintro ⟨old', d, hold, hd, -⟩
      obtain rfl := Option.some.inj (hlive.symm.trans hold)
      exact absurd (hnone.symm.trans hd) (by simp)
    · have htorn : Torn s env (.updateService svc) ↔ svc.ports.isSome ∧ svc.Addressable ∧
          ¬ Spares env.fault w₁.journal.length svc.opCount := by
        rw [hlen₁, show (⟨s, []⟩ : World).journal.length = 0 from rfl, Nat.zero_add]
        refine ⟨?_, fun h => ⟨old, d, hlive, hd, hcan, h⟩⟩
        rintro ⟨old', d', hold, hd', -, h⟩
        obtain rfl := Option.some.inj (hlive.symm.trans hold)
        obtain rfl := Option.some.inj (hd.symm.trans hd')
        exact h
      rcases appendService_outcome env hm₁ hclean₁ svc with
        ⟨r, w₂, hsp, happ, hclean, hserv⟩ | ⟨p, w₂, happ, hserv, hfail⟩
      · refine iff_of_true ?_ fun h => (htorn.mp h).2.2 hsp
        refine atomic_of_ret (Go.run_discard_ret (hrun.trans ((Go.run_bind_ret hdel).trans
          (Go.run_bind_ret happ)))) hclean ?_
        have halloc : w₁.mgr.allocated svc = s.allocated svc := by
          rw [ServiceManager.allocated, hcache₁]
          rfl
        rw [hserv, hserv₁, halloc]
        refine ⟨Table.set_self _ _ _, fun hkeyed k hk => ?_⟩
        rw [Table.set_of_ne _ _ hk, hkeyed old hlive, Table.erase_of_ne _ hk]
      · have hinv : s.invoke env (.updateService svc) = (.panic p, w₂) :=
          Go.run_discard_panic (hrun.trans ((Go.run_bind_ret hdel).trans
            (Go.run_bind_panic happ)))
        -- the removed service is missing from what the call leaves
        have hgone : w₂.mgr.services ≠ s.services := by
          rw [hserv, hserv₁]
          intro heq
          have hkey := congrFun heq old.serviceKey
          rw [Table.erase_self] at hkey
          exact absurd (hkey.trans hd) (by simp)
        rw [atomic_iff_of_panic hinv, hfail, htorn]
        exact ⟨fun h hbad => hgone (h hbad), fun h hbad => absurd hbad h⟩
    · -- the deletion panicked, and the services are as before
      refine iff_of_true (atomic_of_panic (Go.run_discard_panic
        (hrun.trans (Go.run_bind_panic hdel))) hserv₁) ?_
      rintro ⟨old', d', hold, hd', hcan, -⟩
      obtain rfl := Option.some.inj (hlive.symm.trans hold)
      obtain rfl := Option.some.inj (hd.symm.trans hd')
      exact hcannot hcan

/-- **Exactly when a failed BPF write leaves the service cache alone.** For every
manager with set map handles, every service, visiting order and pattern of failures:
a call of `UpdateService`, `AppendService` or `DeleteService` is atomic unless it is
an update that removes a live service and then fails at a map operation of the new
one. -/
theorem atomic_iff_not_torn (hm : s.maps.NonNil) (env : Env) (hcall : call.OnService) :
    Atomic s env call ↔ ¬ Torn s env call := by
  cases call with
  | updateService svc => exact atomic_updateService_iff hm env svc
  | appendService svc => exact iff_of_true (atomic_appendService hm env svc) id
  | deleteService key => exact iff_of_true (atomic_deleteService hm env key) id
  | onUpdateEndpointSlice new => exact hcall.elim
  | onDeleteEndpointSlice slice => exact hcall.elim

/-- Without failures an update of the idle service is atomic. -/
theorem atomic_update_idle : Atomic idlePublished .calm (.updateService idleService) := by
  have hcall : (Call.updateService idleService).OnService := trivial
  have hm : idlePublished.maps.NonNil := ⟨rfl, rfl⟩
  refine (atomic_iff_not_torn hm .calm hcall).mpr ?_
  rintro ⟨old, d, -, -, -, -, -, hfault⟩
  exact hfault fun _ _ _ => rfl

/-- The kernel fails the second map operation of the call. -/
def secondFails : Env :=
  { Env.calm with fault := fun n => if n = 1 then some (.errno 12) else none }

/-- The update of the idle service whose second map operation fails takes the service
out of the cache. -/
theorem update_loses_idle :
    idlePublished.maps.NonNil ∧
    (∃ ev ∈ (idlePublished.invoke secondFails (.updateService idleService)).2.journal,
      ev.err ≠ none) ∧
    (idlePublished.services "default/idle").isSome ∧
    (idlePublished.invoke secondFails (.updateService idleService)).2.mgr.services "default/idle" =
      none ∧
    ¬ Atomic idlePublished secondFails (.updateService idleService) := by
  have hfailed : ∃ ev ∈ (idlePublished.invoke secondFails (.updateService idleService)).2.journal,
      ev.err ≠ none := by decide
  have hbefore : (idlePublished.services "default/idle").isSome := by decide
  have hafter : (idlePublished.invoke secondFails (.updateService idleService)).2.mgr.services
      "default/idle" = none := by decide
  refine ⟨⟨rfl, rfl⟩, hfailed, hbefore, hafter, fun h => ?_⟩
  rw [h.1 hfailed] at hafter
  rw [hafter] at hbefore
  exact absurd hbefore (by simp)

end EProxy
