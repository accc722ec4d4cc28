import EProxy.Manager.Extraction
import EProxy.Manager.Removal
import EProxy.Manager.Slots
import EProxy.Manager.Touches

/-!
# Slice events

A service is stored under namespace, `/` and name. `OnUpdateEndpointSlice` and
`OnDeleteEndpointSlice` look it up under name, `/` and namespace (`sliceKey`), so an
event for a slice of service `n` in `ns` is after service `ns` in `n`. What the call may
touch is known from `invoke_touches`; here it is compared with what it should touch,
the service under `labelKey`.

`Addressed` is the condition under which events are local and have their effect. Three
situations meet it: neither of the two services is live; or namespace and name are the same
text, the service can be removed and appended again, and no other service shares a frontend
with it; or the service that is found is not the one the slice is for, but all its frontends
are gone already, so that the deletion panics at its first operation. In every state that
calls reach, exactly these do (`sliceEvents_local_iff`).
-/

namespace EProxy

open Framework Machine

variable {s s' : ServiceManager} {env : Env} {slice : Api.EndpointSlice}

/-- From `s` to `s'` only the service under `key` changed, and no frontend of another
live service. -/
structure Local (key : String) (s s' : ServiceManager) : Prop where
  services : ∀ {k}, k ≠ key → s'.services k = s.services k
  frontends : ∀ {k svc}, k ≠ key → s.services k = some svc →
    ∀ f ∈ svc.frontends, s'.maps.frontend f = s.maps.frontend f

/-- **Slice events touch only their own service**, wherever the kernel makes them stop; and
when it fails no operation they act on a live service: an update gives it the addresses the
method collected, a deletion takes it away. -/
structure SliceEventsLocal (s : ServiceManager) (slice : Api.EndpointSlice) : Prop where
  update : ∀ env, Local slice.labelKey s (s.invoke env (.onUpdateEndpointSlice slice)).2.mgr
  delete : ∀ env, Local slice.labelKey s (s.invoke env (.onDeleteEndpointSlice slice)).2.mgr
  updates : (s.services slice.labelKey).isSome → ∀ env : Env, (∀ i, env.fault i = none) →
    ∃ held, (s.invoke env (.onUpdateEndpointSlice slice)).2.mgr.services slice.labelKey =
      some held ∧ onUpdateEndpoints [] slice.endpoints = .ret held.endpoints
  deletes : (s.services slice.labelKey).isSome → ∀ env : Env, (∀ i, env.fault i = none) →
    (s.invoke env (.onDeleteEndpointSlice slice)).2.mgr.services slice.labelKey = none

/-- The service that slice events delete and append is the one of the slice, and they can do
so without harm to another one. -/
structure Owned (s : ServiceManager) (slice : Api.EndpointSlice) (svc : Service) : Prop where
  named : slice.ns = slice.serviceName
  live : s.services slice.labelKey = some svc
  deletable : Deletable s.maps svc
  ipv4 : ReadyIPv4 slice.endpoints
  disjoint : ∀ k other, k ≠ slice.labelKey → s.services k = some other →
    ∀ f ∈ other.frontends, f ∉ svc.frontends

/-- The slice finds a service that is not its own, and no frontend of it to delete. -/
structure Stranded (s : ServiceManager) (slice : Api.EndpointSlice) (svc : Service) : Prop where
  found : s.services (sliceKey slice) = some svc
  dead : s.services slice.labelKey = none
  ports : svc.portList ≠ []
  frontends : ∀ f ∈ svc.frontends, s.maps.frontend f = none

/-- What the state has to be like for events of the slice to be local and effective. -/
def Addressed (s : ServiceManager) (slice : Api.EndpointSlice) : Prop :=
  (s.services (sliceKey slice) = none ∧ s.services slice.labelKey = none) ∨
    (∃ svc, Owned s slice svc) ∨ ∃ svc, Stranded s slice svc

/-- The two keys are one when namespace and name are. -/
theorem sliceKey_eq_labelKey_iff (slice : Api.EndpointSlice) :
    sliceKey slice = slice.labelKey ↔ slice.ns = slice.serviceName := by
  constructor
  · intro h
    exact Name.ext (Name.slash_inj h).1.symm
  · intro h
    rw [sliceKey, Api.EndpointSlice.labelKey, h]

/-! ### A service that is not found -/

/-- Nothing changed but ids. -/
structure Untouched (s s' : ServiceManager) : Prop where
  services : s'.services = s.services
  maps : s'.maps = s.maps

theorem Untouched.local (h : Untouched s s') (key : String) : Local key s s' :=
  ⟨fun _ => by rw [h.services], fun _ _ _ _ => by rw [h.maps]⟩

/-- An update for a service that is not found panics: the object it makes up has no
ports. -/
theorem onUpdateEndpointSlice_of_absent (hlabels : slice.labels ≠ [])
    (hfound : s.services (sliceKey slice) = none) :
    (s.invoke env (.onUpdateEndpointSlice slice)).1 ≠ .ret () ∧
      Untouched s (s.invoke env (.onUpdateEndpointSlice slice)).2.mgr := by
  have hrun : s.invoke env (.onUpdateEndpointSlice slice) = _ :=
    onUpdateEndpointSlice_run_of_absent (w := ⟨s, []⟩) hlabels hfound
  rw [hrun]
  cases heps : onUpdateEndpoints [] slice.endpoints with
  | panic p =>
    rw [Go.run_bind_panic (Go.run_lift _ _)]
    exact ⟨by simp, rfl, rfl⟩
  | ret eps =>
    rw [Go.run_bind_ret (Go.run_lift _ _)]
    have hports : (⟨slice.serviceName.text, slice.ns.text, 0, [], none, eps⟩ : Service).ports =
        none := rfl
    obtain ⟨p, happ⟩ := appendService_panics env ⟨s, []⟩ (Or.inl hports)
    rw [Go.run_bind_panic happ]
    exact ⟨by simp, rfl, rfl⟩

/-- A deletion for a service that is not found does nothing. -/
theorem onDeleteEndpointSlice_of_absent (hfound : s.services (sliceKey slice) = none) :
    (s.invoke env (.onDeleteEndpointSlice slice)).2.mgr = s := by
  have hrun : s.invoke env (.onDeleteEndpointSlice slice) = _ :=
    onDeleteEndpointSlice_run_of_absent (w := ⟨s, []⟩) hfound
  rw [hrun]

/-! ### A service that is found -/

/-- A deletion that returned has removed the service it found, under its own key, which
is the one it was found with. -/
theorem onDeleteEndpointSlice_ret (hs : Sound s) {svc : Service}
    (hfound : s.services (sliceKey slice) = some svc)
    (hret : (s.invoke env (.onDeleteEndpointSlice slice)).1 = .ret ()) :
    ∃ order s₁, Removes s (sliceKey slice) svc order s₁ ∧
      (s.invoke env (.onDeleteEndpointSlice slice)).2.mgr.maps = s₁.maps ∧
      (s.invoke env (.onDeleteEndpointSlice slice)).2.mgr.services (sliceKey slice) = none := by
  have hrun : (onDeleteEndpointSlice env slice).run ⟨s, []⟩ =
      (.ret (), (s.invoke env (.onDeleteEndpointSlice slice)).2) := Prod.ext hret rfl
  rcases onDeleteEndpointSlice_eq_ret hrun with ⟨hnone, -⟩ | ⟨service, err, w₁, hlive, hdel, hfinal⟩
  · exact absurd (hfound.symm.trans hnone) (by simp)
  obtain rfl : svc = service := Option.some.inj (hfound.symm.trans hlive)
  rw [hs.keyed hfound] at hdel
  rcases @deleteService_ret env ⟨s, []⟩ _ (sliceKey slice) hs.nonNil err hdel with
    ⟨hnone, -⟩ | ⟨svc', order, hrem⟩
  · exact absurd (hfound.symm.trans hnone) (by simp)
  · obtain rfl : svc = svc' := Option.some.inj (hfound.symm.trans hrem.live)
    exact ⟨order, w₁.mgr, hrem, by rw [← hfinal]; rfl,
      by rw [← hfinal]; exact Table.erase_self _ _⟩

/-- What a deletion removes was there. -/
theorem Removes.frontend_isSome {key : String} {svc : Service} {order : List Ports}
    (h : Removes s key svc order s') {f : Service4Key} (hf : f ∈ svc.frontends) :
    (s.maps.frontend f).isSome := by
  obtain ⟨port, hport, rfl⟩ := List.mem_map.mp hf
  exact h.deletable.2 (.deleteService (svc.frontendKey port))
    (List.mem_flatMap.mpr ⟨port, hport, List.mem_cons_self⟩)

theorem Removes.frontend_eq_none {key : String} {svc : Service} {order : List Ports}
    (h : Removes s key svc order s') {f : Service4Key} (hf : f ∈ svc.frontends) :
    s'.maps.frontend f = none := by
  rw [h.maps, fold_frontend_deleteScript, if_pos ((h.perm.map _).mem_iff.mpr hf)]

/-- Without a fault, a service whose keys are all there is deleted. -/
theorem deleteService_returns {w : World} {key : String} {svc : Service}
    (hs : Sound w.mgr) (hlive : w.mgr.services key = some svc) (hdel : Deletable w.mgr.maps svc)
    (hfault : ∀ i, env.fault i = none) :
    ∃ err w₁, (deleteService env key).run w = (.ret err, w₁) := by
  have hret : ((deleteService env key).run w).1.Returned :=
    (deleteService_returned_iff hs.nonNil hlive (hs.ports hlive) (hs.addressable hlive)).mpr
      ⟨fun i _ _ => hfault i, hdel⟩
  rcases hrun : (deleteService env key).run w with ⟨err | p, w₁⟩
  · exact ⟨err, w₁, rfl⟩
  · rw [hrun] at hret
    exact hret.elim

theorem onDeleteEndpointSlice_returns (hs : Sound s) {svc : Service}
    (hfound : s.services (sliceKey slice) = some svc) (hdel : Deletable s.maps svc)
    (hfault : ∀ i, env.fault i = none) :
    (s.invoke env (.onDeleteEndpointSlice slice)).1 = .ret () := by
  have hrun : s.invoke env (.onDeleteEndpointSlice slice) = _ :=
    onDeleteEndpointSlice_run_of_live (w := ⟨s, []⟩) hfound
  obtain ⟨err, w₁, hd⟩ := deleteService_returns (w := ⟨s, []⟩) hs hfound hdel hfault
  rw [hrun, hs.keyed hfound, Go.run_bind_ret hd]
  rfl

theorem onUpdateEndpointSlice_returns (hs : Sound s) (hlabels : slice.labels ≠ []) {svc : Service}
    (hfound : s.services (sliceKey slice) = some svc) (hdel : Deletable s.maps svc)
    (hipv4 : ReadyIPv4 slice.endpoints) (hfault : ∀ i, env.fault i = none) :
    (s.invoke env (.onUpdateEndpointSlice slice)).1 = .ret () := by
  have hrun : s.invoke env (.onUpdateEndpointSlice slice) = _ :=
    onUpdateEndpointSlice_run_of_live (w := ⟨s, []⟩) hlabels hfound
  have heps : onUpdateEndpoints [] slice.endpoints = .ret (collected (· = 0) slice.endpoints) :=
    (onUpdateEndpoints_eq_ret_iff _ _ _).mpr ⟨hipv4, rfl⟩
  obtain ⟨err, w₁, hd⟩ := deleteService_returns (w := ⟨s, []⟩) hs hfound hdel hfault
  -- what is appended has the ports and the address of the service
  obtain ⟨set, hset⟩ := Option.isSome_iff_exists.mp (hs.ports hfound)
  have haddr : svc.Addressable := hs.addressable hfound
  have hports : Service.ports { svc with endpoints := collected (· = 0) slice.endpoints } =
      some set := hset
  have happ : ((appendService env
      { svc with endpoints := collected (· = 0) slice.endpoints }).run w₁).1.Returned :=
    (appendService_returned_iff hports).mpr ⟨haddr, fun i _ _ => hfault i⟩
  rw [hrun, heps, Go.run_bind_ret (Go.run_lift _ _), hs.keyed hfound, Go.run_bind_ret hd]
  rcases hr : (appendService env
    { svc with endpoints := collected (· = 0) slice.endpoints }).run w₁ with ⟨r | p, w₂⟩
  · rw [Go.run_bind_ret hr]
    rfl
  · rw [hr] at happ
    exact happ.elim

/-! ### A deletion that stops at once -/

/-- With a port to visit and no frontend there, `DeleteService` panics before it has changed
anything. -/
theorem deleteService_stranded (hs : Sound s) (env : Env) {key : String} {svc : Service}
    (hlive : s.services key = some svc) (hports : svc.portList ≠ [])
    (hgone : ∀ f ∈ svc.frontends, s.maps.frontend f = none) :
    ∃ p w₁, (deleteService env key).run ⟨s, []⟩ = (.panic p, w₁) ∧ w₁.mgr = s := by
  obtain ⟨set, hset⟩ := Option.isSome_iff_exists.mp (hs.ports hlive)
  have hperm := visit_perm_portList env.deleteOrder hset
  have hrun := @deleteService_run env ⟨s, []⟩ key svc set hs.nonNil hlive hset
    (hs.addressable hlive)
  rcases horder : env.deleteOrder.visit set.items with _ | ⟨port, rest⟩
  · rw [horder] at hperm
    exact absurd (List.nil_perm.mp hperm) hports
  · have hfront : svc.frontendKey port ∈ svc.frontends := by
      rw [horder] at hperm
      exact List.mem_map.mpr ⟨port, hperm.mem_iff.mp List.mem_cons_self, rfl⟩
    -- the first operation is failed by the kernel or finds no key
    have hfail : bpfMachine.verdict env.fault 0 s.maps (.deleteService (svc.frontendKey port)) ≠
        none := by
      rw [Ne, verdict_eq_none_iff, bpfMachine_refuse, refuse_eq_none_iff]
      rintro ⟨-, hthere⟩
      rw [MapOp.Present, hgone _ hfront] at hthere
      exact absurd hthere (by simp)
    obtain ⟨e, he⟩ := Option.ne_none_iff_exists'.mp hfail
    rw [horder, deleteScript, List.flatMap_cons, deletePortOps, List.cons_append,
      exec_cons_some (issue_some he)] at hrun
    exact ⟨_, _, hrun, rfl⟩

theorem Stranded.untouched_delete (hs : Sound s) (env : Env) {svc : Service}
    (h : Stranded s slice svc) :
    Untouched s (s.invoke env (.onDeleteEndpointSlice slice)).2.mgr := by
  have hrun : s.invoke env (.onDeleteEndpointSlice slice) = _ :=
    onDeleteEndpointSlice_run_of_live (w := ⟨s, []⟩) h.found
  obtain ⟨p, w₁, hd, hsame⟩ := deleteService_stranded hs env h.found h.ports h.frontends
  rw [hrun, hs.keyed h.found, Go.run_bind_panic hd, hsame]
  exact ⟨rfl, rfl⟩

theorem Stranded.untouched_update (hs : Sound s) (hlabels : slice.labels ≠ []) (env : Env)
    {svc : Service} (h : Stranded s slice svc) :
    Untouched s (s.invoke env (.onUpdateEndpointSlice slice)).2.mgr := by
  have hrun : s.invoke env (.onUpdateEndpointSlice slice) = _ :=
    onUpdateEndpointSlice_run_of_live (w := ⟨s, []⟩) hlabels h.found
  obtain ⟨p, w₁, hd, hsame⟩ := deleteService_stranded hs env h.found h.ports h.frontends
  rw [hrun]
  cases heps : onUpdateEndpoints [] slice.endpoints with
  | panic p =>
    rw [Go.run_bind_panic (Go.run_lift _ _)]
    exact ⟨rfl, rfl⟩
  | ret eps =>
    rw [Go.run_bind_ret (Go.run_lift _ _), hs.keyed h.found, Go.run_bind_panic hd, hsame]
    exact ⟨rfl, rfl⟩

/-! ### Locality -/

/-- With the keys the same, a call leaves other services alone as far as they share no
frontend. -/
theorem local_of_touches {key : String} {svc : Service} (hlive : s.services key = some svc)
    (h : Touches key (s.frontendsAt key ++ []) s s')
    (hdisj : ∀ k other, k ≠ key → s.services k = some other → ∀ f ∈ other.frontends,
      f ∉ svc.frontends) : Local key s s' := by
  refine ⟨h.services, fun hk hsvc f hf => h.frontend ?_⟩
  rw [List.append_nil, frontendsAt_of_live hlive]
  exact hdisj _ _ hk hsvc f hf

theorem Owned.sliceEventsLocal (hs : Sound s) (hlabels : slice.labels ≠ []) {svc : Service}
    (h : Owned s slice svc) : SliceEventsLocal s slice := by
  have hkey : sliceKey slice = slice.labelKey := (sliceKey_eq_labelKey_iff slice).mpr h.named
  have hfound : s.services (sliceKey slice) = some svc := hkey ▸ h.live
  have hupd := fun env => invoke_touches hs env (.onUpdateEndpointSlice slice)
  have hdel := fun env => invoke_touches hs env (.onDeleteEndpointSlice slice)
  simp only [Call.target, Call.frontends, hkey] at hupd hdel
  refine ⟨fun env => local_of_touches h.live (hupd env) h.disjoint,
    fun env => local_of_touches h.live (hdel env) h.disjoint, fun _ env hfault => ?_,
    fun _ env hfault => ?_⟩
  · obtain ⟨eps, held, heps, hheld, rfl⟩ := onUpdateEndpointSlice_stores hlabels
      (onUpdateEndpointSlice_returns hs hlabels hfound h.deletable h.ipv4 hfault)
    exact ⟨held, hkey ▸ hheld, heps⟩
  · obtain ⟨order, s₁, -, -, hnone⟩ := onDeleteEndpointSlice_ret hs hfound
      (onDeleteEndpointSlice_returns hs hfound h.deletable hfault)
    exact hkey ▸ hnone

theorem sliceEventsLocal_of_addressed (hs : Sound s) (hlabels : slice.labels ≠ [])
    (h : Addressed s slice) : SliceEventsLocal s slice := by
  -- without a live service of its own the slice has nothing to act on
  have hidle : s.services slice.labelKey = none →
      (∀ env, Untouched s (s.invoke env (.onUpdateEndpointSlice slice)).2.mgr) →
      (∀ env, Untouched s (s.invoke env (.onDeleteEndpointSlice slice)).2.mgr) →
      SliceEventsLocal s slice := by
    intro hdead hupd hdel
    have hnot : ¬ (s.services slice.labelKey).isSome := by simp [hdead]
    exact ⟨fun env => (hupd env).local _, fun env => (hdel env).local _,
      fun hlive => absurd hlive hnot, fun hlive => absurd hlive hnot⟩
  rcases h with ⟨hfound, hdead⟩ | ⟨svc, h⟩ | ⟨svc, h⟩
  · refine hidle hdead (fun env => (onUpdateEndpointSlice_of_absent hlabels hfound).2) fun env => ?_
    rw [onDeleteEndpointSlice_of_absent hfound]
    exact ⟨rfl, rfl⟩
  · exact h.sliceEventsLocal hs hlabels
  · exact hidle h.dead (h.untouched_update hs hlabels) (h.untouched_delete hs)

/-! ### Necessity -/

/-- The maps `OnDeleteEndpointSlice` leaves are those `DeleteService` leaves. -/
theorem onDeleteEndpointSlice_maps (hs : Sound s) (env : Env) {svc : Service}
    (hfound : s.services (sliceKey slice) = some svc) :
    (s.invoke env (.onDeleteEndpointSlice slice)).2.mgr.maps =
      ((deleteService env (sliceKey slice)).run ⟨s, []⟩).2.mgr.maps := by
  have hrun : s.invoke env (.onDeleteEndpointSlice slice) = _ :=
    onDeleteEndpointSlice_run_of_live (w := ⟨s, []⟩) hfound
  rw [hs.keyed hfound] at hrun
  rw [hrun]
  rcases hd : (deleteService env (sliceKey slice)).run ⟨s, []⟩ with ⟨err | p, w₁⟩
  · rw [Go.run_bind_ret hd]
    rfl
  · rw [Go.run_bind_panic hd]

/-- A deletion that takes the service away has run through. -/
theorem onDeleteEndpointSlice_removes (hs : Sound s) {svc : Service}
    (hfound : s.services (sliceKey slice) = some svc)
    (hgone : (s.invoke env (.onDeleteEndpointSlice slice)).2.mgr.services (sliceKey slice) =
      none) :
    ∃ order s₁, Removes s (sliceKey slice) svc order s₁ ∧
      (s.invoke env (.onDeleteEndpointSlice slice)).2.mgr.maps = s₁.maps := by
  have hrun : s.invoke env (.onDeleteEndpointSlice slice) = _ :=
    onDeleteEndpointSlice_run_of_live (w := ⟨s, []⟩) hfound
  rw [hs.keyed hfound] at hrun
  rcases deleteService_cases (w := ⟨s, []⟩) env hs.nonNil (sliceKey slice) with ⟨hnone, -⟩ |
    ⟨svc', set, st, -, -, -, -, hd⟩ | ⟨svc', p, -, -, hd⟩ | ⟨svc', set, e, st, -, -, -, -, hd⟩
  · exact absurd (hfound.symm.trans hnone) (by simp)
  · have hret : (s.invoke env (.onDeleteEndpointSlice slice)).1 = .ret () := by
      rw [hrun, Go.run_bind_ret hd]
      rfl
    obtain ⟨order, s₁, hrem, hmaps, -⟩ := onDeleteEndpointSlice_ret hs hfound hret
    exact ⟨order, s₁, hrem, hmaps⟩
  -- a panic leaves the services as they were
  · rw [hrun, Go.run_bind_panic hd] at hgone
    exact absurd (hfound.symm.trans hgone) (by simp)
  · rw [hrun, Go.run_bind_panic hd] at hgone
    exact absurd (hfound.symm.trans hgone) (by simp)

/-- A frontend that is deleted first stays deleted, however far the script gets. -/
theorem exec_frontend_of_deletes {fault : ℕ → Option MapError} {st : Log Maps MapOp MapError}
    {k : Service4Key} {ops : List MapOp} (hfault : ∀ i, fault i = none)
    (hthere : (st.mem.frontend k).isSome) (hops : ∀ op ∈ ops, op.IsDelete) :
    (bpfMachine.exec fault st (.deleteService k :: ops)).2.mem.frontend k = none := by
  have hpass : bpfMachine.verdict fault st.journal.length st.mem (.deleteService k) = none := by
    rw [verdict_eq_none_iff, bpfMachine_refuse, refuse_eq_none_iff]
    exact ⟨hfault _, hthere⟩
  rw [exec_cons_none (issue_none hpass)]
  refine exec_invariant (I := fun m : Maps => m.frontend k = none) (fun op hop m hnone => ?_) ?_
  · have hdel := hops op hop
    cases op with
    | updateService k' v => exact hdel.elim
    | updateEndpoint e v => exact hdel.elim
    | deleteService k' => rw [bpfMachine_apply, frontend_deleteService, hnone, ite_self]
    | deleteEndpoint e => exact hnone
  · change (MapOp.apply st.mem (.deleteService k)).frontend k = none
    rw [frontend_deleteService, if_pos rfl]

/-- Visited first, a port loses its frontend. -/
theorem deleteService_frontend_first (hs : Sound s) {key : String} {svc : Service} {port : Ports}
    (hlive : s.services key = some svc) (hport : port ∈ svc.portList)
    (hthere : (s.maps.frontend (svc.frontendKey port)).isSome) :
    ((deleteService { Env.calm with deleteOrder := .first port } key).run
      ⟨s, []⟩).2.mgr.maps.frontend (svc.frontendKey port) = none := by
  obtain ⟨set, hset⟩ := Option.isSome_iff_exists.mp (hs.ports hlive)
  rw [portList_of_ports hset] at hport
  have hfirst : deleteScript svc ((IterOrder.first port).visit set.items) =
      .deleteService (svc.frontendKey port) ::
        (deleteEndpointOps svc 0 svc.endpoints.length ++
          deleteScript svc (set.items.erase port)) := by
    rw [IterOrder.first_visit hport]
    rfl
  have hdeletes : ∀ op ∈ deleteEndpointOps svc 0 svc.endpoints.length ++
      deleteScript svc (set.items.erase port), op.IsDelete := by
    intro op hop
    refine isDelete_deleteScript svc ((IterOrder.first port).visit set.items) op ?_
    rw [hfirst]
    exact List.mem_cons_of_mem _ hop
  have hgone : (bpfMachine.exec Env.calm.fault ⟨s.maps, []⟩
      (.deleteService (svc.frontendKey port) ::
        (deleteEndpointOps svc 0 svc.endpoints.length ++
          deleteScript svc (set.items.erase port)))).2.mem.frontend (svc.frontendKey port) =
        none :=
    exec_frontend_of_deletes (fun _ => rfl) hthere hdeletes
  rw [deleteService_run (w := ⟨s, []⟩) hs.nonNil hlive hset (hs.addressable hlive)]
  rw [← hfirst] at hgone
  rcases hx : bpfMachine.exec Env.calm.fault ⟨s.maps, []⟩
      (deleteScript svc ((IterOrder.first port).visit set.items)) with ⟨_ | e, st⟩
  · rw [hx] at hgone
    rw [show bpfMachine.exec _ (World.log ⟨s, []⟩) _ = _ from hx]
    exact hgone
  · rw [hx] at hgone
    rw [show bpfMachine.exec _ (World.log ⟨s, []⟩) _ = _ from hx]
    exact hgone

/-- A service that is found by mistake is left alone only if there is nothing to delete. -/
theorem stranded_of_local (hs : Sound s) {svc : Service}
    (hfound : s.services (sliceKey slice) = some svc) (hdead : s.services slice.labelKey = none)
    (h : ∀ env, Local slice.labelKey s (s.invoke env (.onDeleteEndpointSlice slice)).2.mgr) :
    Stranded s slice svc := by
  have hne : sliceKey slice ≠ slice.labelKey := by
    intro heq
    rw [heq, hdead] at hfound
    exact absurd hfound (by simp)
  refine ⟨hfound, hdead, fun hnil => ?_, fun f hf => ?_⟩
  · -- a service without ports is removed without a map operation
    have hdel : Deletable s.maps svc := by
      rw [Deletable, hnil]
      exact ⟨List.nodup_nil, fun _ hop => absurd hop List.not_mem_nil⟩
    have hret : (s.invoke .calm (.onDeleteEndpointSlice slice)).1 = .ret () :=
      onDeleteEndpointSlice_returns hs hfound hdel fun _ => rfl
    obtain ⟨order, s₁, -, -, hnone⟩ := onDeleteEndpointSlice_ret hs hfound hret
    rw [(h .calm).services hne, hfound] at hnone
    exact absurd hnone (by simp)
  · -- a frontend that is there goes, if its port comes first
    by_contra hthere
    obtain ⟨port, hport, rfl⟩ := List.mem_map.mp hf
    have hkept := (h { Env.calm with deleteOrder := .first port }).frontends hne hfound _ hf
    rw [onDeleteEndpointSlice_maps hs _ hfound, deleteService_frontend_first hs hfound hport
      (Option.isSome_iff_ne_none.mpr hthere)] at hkept
    exact hthere hkept.symm

theorem owned_of_sliceEventsLocal (hs : Sound s) {svc : Service}
    (hlive : s.services slice.labelKey = some svc) (h : SliceEventsLocal s slice) :
    Owned s slice svc := by
  have hsome : (s.services slice.labelKey).isSome := by rw [hlive]; rfl
  have hgone := h.deletes hsome .calm fun _ => rfl
  -- the call changes the service it finds only, so it has found the one that is gone
  have hkey : sliceKey slice = slice.labelKey := by
    by_contra hne
    have htouch := invoke_touches hs .calm (.onDeleteEndpointSlice slice)
    rw [htouch.services (Ne.symm hne), hlive] at hgone
    exact absurd hgone (by simp)
  have hfound : s.services (sliceKey slice) = some svc := hkey ▸ hlive
  obtain ⟨order, s₁, hrem, hmaps⟩ := onDeleteEndpointSlice_removes hs hfound (hkey ▸ hgone)
  obtain ⟨held, -, heps⟩ := h.updates hsome .calm fun _ => rfl
  refine ⟨(sliceKey_eq_labelKey_iff slice).mp hkey, hlive, hrem.deletable,
    ((onUpdateEndpoints_eq_ret_iff _ _ _).mp heps).1, fun k other hk hother f hf hshared => ?_⟩
  -- a shared frontend was there and is not there any more
  have hkept := (h.delete .calm).frontends hk hother f hf
  rw [hmaps, hrem.frontend_eq_none hshared] at hkept
  have hthere := hrem.frontend_isSome hshared
  rw [← hkept] at hthere
  exact absurd hthere (by simp)

theorem addressed_of_sliceEventsLocal (hs : Sound s) (h : SliceEventsLocal s slice) :
    Addressed s slice := by
  cases hlive : s.services slice.labelKey with
  | some svc => exact Or.inr (Or.inl ⟨svc, owned_of_sliceEventsLocal hs hlive h⟩)
  | none =>
    cases hfound : s.services (sliceKey slice) with
    | none => exact Or.inl ⟨hfound, hlive⟩
    | some svc => exact Or.inr (Or.inr ⟨svc, stranded_of_local hs hfound hlive h.delete⟩)

/-- **Exactly when slice events are local.** In every state that calls of the manager reach,
returned or not, and for every slice labelled with a service. -/
theorem sliceEvents_local_iff (hreach : (managerSystem fun _ => True).Reachable s)
    {n : Name} (hlabel : slice.labels.lookup Api.labelServiceName = some n) :
    SliceEventsLocal s slice ↔ Addressed s slice := by
  have hs := sound_of_calls hreach
  have hlabels : slice.labels ≠ [] := by
    intro hnil
    rw [hnil] at hlabel
    exact absurd hlabel (by simp)
  exact ⟨addressed_of_sliceEventsLocal hs, sliceEventsLocal_of_addressed hs hlabels⟩

/-- An idle service of a name, in a namespace. -/
def idleIn (ns name : String) : Service := { idleService with ns := ns, name := name }

/-- The manager that has published it. -/
def holdsIdle (ns name : String) : ServiceManager :=
  ((newServiceManager Maps.empty).invoke .calm (.updateService (idleIn ns name))).2.mgr

theorem reachable_holdsIdle (ns name : String) :
    (managerSystem fun _ => True).Reachable (holdsIdle ns name) :=
  (System.reachable_init (managerSystem fun _ => True)).step
    (l := ⟨.updateService (idleIn ns name), .calm⟩) ⟨trivial, rfl⟩

/-- A slice without endpoints, labelled with a service. -/
def emptySlice (ns name : Name) (h : ns.text ≠ "") : Api.EndpointSlice where
  name := name
  ns := ns
  labels := [(Api.labelServiceName, name)]
  deletionTimestamp := none
  endpoints := []
  ports := []
  namespaced := h

/-- A service named after its namespace gets the events of its slices: the deletion of one
takes it away. -/
theorem sliceEvents_local_default :
    SliceEventsLocal (holdsIdle "default" "default")
        (emptySlice ⟨"default", by decide⟩ ⟨"default", by decide⟩ (by decide)) ∧
      ((holdsIdle "default" "default").services "default/default").isSome ∧
      ((holdsIdle "default" "default").invoke .calm (.onDeleteEndpointSlice (emptySlice
        ⟨"default", by decide⟩ ⟨"default", by decide⟩ (by decide)))).2.mgr.services
          "default/default" = none := by
  have hlocal : SliceEventsLocal (holdsIdle "default" "default")
      (emptySlice ⟨"default", by decide⟩ ⟨"default", by decide⟩ (by decide)) := by
    refine (sliceEvents_local_iff (n := ⟨"default", by decide⟩) (reachable_holdsIdle _ _)
      (by decide)).mpr (Or.inr (Or.inl ⟨{ idleIn "default" "default" with serviceId := 1 },
        rfl, by decide, ?_, readyIPv4_nil, fun k svc hk hsvc => ?_⟩))
    · exact (deletable_iff (by decide)).mpr ⟨by decide, Or.inl rfl, by decide⟩
    · -- no other service is live
      have hkey : k ≠ "default/default" := hk
      have hservices : (holdsIdle "default" "default").services =
        Table.empty.set "default/default"
          { idleIn "default" "default" with serviceId := 1 } := rfl
      rw [hservices, Table.set_of_ne _ _ hkey] at hsvc
      exact absurd hsvc (by simp)
  have hlive : ((holdsIdle "default" "default").services "default/default").isSome := by decide
  exact ⟨hlocal, hlive, hlocal.deletes hlive .calm fun _ => rfl⟩

/-- Deleting a slice of service `a` in `b` removes service `b` in `a`. -/
theorem sliceEvent_hits_other_service :
    (managerSystem fun _ => True).Reachable (holdsIdle "a" "b") ∧
      (emptySlice ⟨"b", by decide⟩ ⟨"a", by decide⟩ (by decide)).labelKey = "b/a" ∧
      ((holdsIdle "a" "b").services "a/b").isSome ∧
      ((holdsIdle "a" "b").invoke .calm (.onDeleteEndpointSlice
        (emptySlice ⟨"b", by decide⟩ ⟨"a", by decide⟩ (by decide)))).1 = .ret () ∧
      ((holdsIdle "a" "b").invoke .calm (.onDeleteEndpointSlice
        (emptySlice ⟨"b", by decide⟩ ⟨"a", by decide⟩ (by decide)))).2.mgr.services "a/b" = none :=
  ⟨reachable_holdsIdle _ _, by decide, by decide, by decide, by decide⟩

end EProxy
