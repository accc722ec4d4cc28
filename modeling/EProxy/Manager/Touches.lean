import EProxy.Manager.Steps

/-!
# What a call may touch

Returned or not, a call of the manager changes one entry of `services`, the one under
its `target`, and in `serviceMap` only frontends of the service that was live there and
of the service it publishes. `Touches` is that frame, `invoke_touches` proves it for
all five methods at once, and everything that holds of the manager between calls
follows from it: `sound_of_calls` extends `Sound` from runs of returning calls of
`UpdateService` and `DeleteService` to runs of all calls, recovered panics included.

The slice methods look a service up under `sliceKey` and delete it under its own key.
The two agree because a service is stored under its own key (`Sound.keyed`); and when
no service is found, `OnUpdateEndpointSlice` appends an object without ports, which
panics before it stores anything.
-/

namespace EProxy

open Framework Machine

/-- The frontends of a service, in the order of its ports. -/
def Service.frontends (svc : Service) : List Service4Key := svc.portList.map svc.frontendKey

/-- The frontends of the service live under `key`, if one is. -/
def ServiceManager.frontendsAt (s : ServiceManager) (key : String) : List Service4Key :=
  ((s.services key).map Service.frontends).getD []

/-- What `AppendService` asks of a service before it stores it under `key`. -/
structure Stored (key : String) (svc : Service) : Prop where
  keyed : svc.serviceKey = key
  ports : svc.ports.isSome
  addressable : svc.Addressable

/-- **The frame of a change** of the service under `key` that touches no frontend
outside `fronts`. -/
structure Touches (key : String) (fronts : List Service4Key) (s s' : ServiceManager) : Prop where
  nonNil : s.maps.NonNil → s'.maps.NonNil
  services : ∀ {k}, k ≠ key → s'.services k = s.services k
  stored : ∀ {k svc}, s'.services k = some svc → s.services k = some svc ∨ Stored k svc
  frontend : ∀ {f}, f ∉ fronts → s'.maps.frontend f = s.maps.frontend f

namespace Touches

variable {key : String} {fronts fronts' : List Service4Key} {s s₁ s' : ServiceManager}

theorem refl (key : String) (fronts : List Service4Key) (s : ServiceManager) :
    Touches key fronts s s := ⟨id, fun _ => rfl, Or.inl, fun _ => rfl⟩

theorem trans (h : Touches key fronts s s₁) (h' : Touches key fronts s₁ s') :
    Touches key fronts s s' := by
  refine ⟨fun hm => h'.nonNil (h.nonNil hm), fun hk => ?_, fun hsvc => ?_, fun hf => ?_⟩
  · rw [h'.services hk, h.services hk]
  · rcases h'.stored hsvc with h₁ | hnew
    · exact h.stored h₁
    · exact Or.inr hnew
  · rw [h'.frontend hf, h.frontend hf]

theorem mono (h : Touches key fronts s s') (hsub : fronts ⊆ fronts') :
    Touches key fronts' s s' :=
  ⟨h.nonNil, h.services, h.stored, fun hf => h.frontend fun hmem => hf (hsub hmem)⟩

theorem sound (h : Touches key fronts s s') (hs : Sound s) : Sound s' := by
  refine ⟨h.nonNil hs.nonNil, fun hk => ?_, fun hk => ?_, fun hk => ?_⟩
  · exact (h.stored hk).elim hs.keyed Stored.keyed
  · exact (h.stored hk).elim hs.ports Stored.ports
  · exact (h.stored hk).elim hs.addressable Stored.addressable

end Touches

/-! ### Scripts -/

/-- The frontend an operation writes or deletes. -/
def MapOp.onFrontend : MapOp → Option Service4Key
  | .updateService k _ | .deleteService k => some k
  | .updateEndpoint _ _ | .deleteEndpoint _ => none

theorem frontend_apply_of_ne {op : MapOp} {f : Service4Key} (h : op.onFrontend ≠ some f)
    {m : Maps} (hm : m.NonNil) : (op.apply m).frontend f = m.frontend f := by
  cases op with
  | updateService k v =>
    rw [frontend_updateService _ _ _ hm, if_neg]
    rintro rfl
    exact h rfl
  | deleteService k =>
    rw [frontend_deleteService, if_neg]
    rintro rfl
    exact h rfl
  | updateEndpoint e v => rfl
  | deleteEndpoint e => rfl

/-- A script leaves the frontends alone that none of its operations names, wherever it
stops. -/
theorem exec_frontend_of_forall {fault : ℕ → Option MapError} {st : Log Maps MapOp MapError}
    {ops : List MapOp} {f : Service4Key} (hm : st.mem.NonNil)
    (h : ∀ op ∈ ops, op.onFrontend ≠ some f) :
    (bpfMachine.exec fault st ops).2.mem.frontend f = st.mem.frontend f := by
  have hinv : (bpfMachine.exec fault st ops).2.mem.NonNil ∧
      (bpfMachine.exec fault st ops).2.mem.frontend f = st.mem.frontend f :=
    exec_invariant (I := fun m : Maps => m.NonNil ∧ m.frontend f = st.mem.frontend f)
      (fun op hop m hI => ⟨apply_nonNil hI.1 op,
        (frontend_apply_of_ne (h op hop) hI.1).trans hI.2⟩) ⟨hm, rfl⟩
  exact hinv.2

/-- A script that goes through the ports, each with operations on its own frontend or on
endpoints, names frontends of the service only. -/
theorem onFrontend_flatMap {svc : Service} {order : List Ports} (hperm : order.Perm svc.portList)
    {ops : Ports → List MapOp} (hops : ∀ port, ∀ op ∈ ops port,
      op.onFrontend = some (svc.frontendKey port) ∨ op.onFrontend = none)
    {f : Service4Key} (hf : f ∉ svc.frontends) :
    ∀ op ∈ order.flatMap ops, op.onFrontend ≠ some f := by
  intro op hop heq
  obtain ⟨port, hport, hop⟩ := List.mem_flatMap.mp hop
  rcases hops port op hop with hkey | hnone
  · have hkey' := Option.some.inj (hkey.symm.trans heq)
    exact hf (List.mem_map.mpr ⟨port, hperm.mem_iff.mp hport, hkey'⟩)
  · exact absurd (hnone.symm.trans heq) (by simp)

theorem onFrontend_deleteScript {svc : Service} {order : List Ports}
    (hperm : order.Perm svc.portList) {f : Service4Key} (hf : f ∉ svc.frontends) :
    ∀ op ∈ deleteScript svc order, op.onFrontend ≠ some f := by
  refine onFrontend_flatMap hperm (fun port op hop => ?_) hf
  rcases List.mem_cons.mp hop with rfl | hop
  · exact Or.inl rfl
  · obtain ⟨i, -, rfl⟩ := List.mem_map.mp hop
    exact Or.inr rfl

theorem onFrontend_appendScript {svc : Service} {order : List Ports}
    (hperm : order.Perm svc.portList) {f : Service4Key} (hf : f ∉ svc.frontends) :
    ∀ op ∈ appendScript svc order, op.onFrontend ≠ some f := by
  refine onFrontend_flatMap hperm (fun port op hop => ?_) hf
  rcases List.mem_cons.mp hop with rfl | hop
  · exact Or.inl rfl
  · obtain ⟨e, -, rfl⟩ := List.mem_map.mp hop
    exact Or.inr rfl

/-! ### Methods -/

variable {env : Env} {w : World} {s : ServiceManager}

theorem frontendsAt_of_live {key : String} {svc : Service} (h : s.services key = some svc) :
    s.frontendsAt key = svc.frontends := by
  rw [ServiceManager.frontendsAt, h]
  rfl

theorem frontends_allocated (w : World) (svc : Service) :
    (w.allocated svc).frontends = svc.frontends := by
  unfold Service.frontends
  rw [allocated_portList]
  exact List.map_congr_left fun port _ => allocated_frontendKey w svc port

/-- A script in the place of the maps, with the services as they are. -/
theorem touches_exec {key : String} {fronts : List Service4Key} {ops : List MapOp}
    {st : Log Maps MapOp MapError} {s' : ServiceManager} (hm : w.mgr.maps.NonNil)
    (hops : ∀ {f}, f ∉ fronts → ∀ op ∈ ops, op.onFrontend ≠ some f)
    (hst : (bpfMachine.exec env.fault w.log ops).2 = st) (hmaps : s'.maps = st.mem)
    (hservices : s'.services = w.mgr.services) : Touches key fronts w.mgr s' := by
  refine ⟨fun _ => ?_, fun _ => by rw [hservices], fun h => ?_, fun hf => ?_⟩
  · rw [hmaps, ← hst]
    exact exec_nonNil hm ops
  · rw [hservices] at h
    exact Or.inl h
  · rw [hmaps, ← hst]
    exact exec_frontend_of_forall hm (hops hf)

/-- `delete(s.services, key)`. -/
theorem touches_erase (w : World) (key : String) (fronts : List Service4Key) :
    Touches key fronts w.mgr (w.eraseService key).mgr := by
  refine ⟨id, fun hk => Table.erase_of_ne _ hk, fun {k svc} h => ?_, fun _ => rfl⟩
  exact Or.inl (Table.of_erase h)

/-- `s.services[key] = svc`, of a service to be found there. -/
theorem touches_set (w : World) {key : String} {svc : Service} (fronts : List Service4Key)
    (hsvc : Stored key svc) : Touches key fronts w.mgr (w.setService key svc).mgr := by
  refine ⟨id, fun hk => Table.set_of_ne _ _ hk, fun {k x} h => ?_, fun _ => rfl⟩
  have h' : w.mgr.services.set key svc k = some x := h
  rw [Table.set_apply] at h'
  split at h'
  · next hk =>
    obtain rfl := Option.some.inj h'
    exact Or.inr (hk ▸ hsvc)
  · exact Or.inl h'

theorem deleteService_touches (env : Env) (hm : w.mgr.maps.NonNil) (key : String) :
    Touches key (w.mgr.frontendsAt key) w.mgr ((deleteService env key).run w).2.mgr := by
  rcases deleteService_cases env hm key with ⟨_, hrun⟩ | ⟨svc, set, st, hlive, hset, _, hx, hrun⟩ |
    ⟨svc, p, _, _, hrun⟩ | ⟨svc, set, e, st, hlive, hset, _, hx, hrun⟩
  · rw [hrun]
    exact Touches.refl _ _ _
  · rw [hrun, frontendsAt_of_live hlive]
    have hscript : Touches key svc.frontends w.mgr (w.withLog st).mgr :=
      touches_exec hm (onFrontend_deleteScript (visit_perm_portList env.deleteOrder hset))
        (congrArg Prod.snd hx) rfl rfl
    exact hscript.trans (touches_erase _ key _)
  · rw [hrun]
    exact Touches.refl _ _ _
  · rw [hrun, frontendsAt_of_live hlive]
    exact touches_exec hm (onFrontend_deleteScript (visit_perm_portList env.deleteOrder hset))
      (congrArg Prod.snd hx) rfl rfl

theorem stored_allocated (w : World) {svc : Service} (hports : svc.ports.isSome)
    (haddr : svc.Addressable) : Stored svc.serviceKey (w.allocated svc) :=
  ⟨allocated_serviceKey w svc, by rw [allocated_ports]; exact hports,
    (allocated_addressable w svc).mpr haddr⟩

theorem appendService_touches (env : Env) (hm : w.mgr.maps.NonNil) (svc : Service) :
    Touches svc.serviceKey svc.frontends w.mgr ((appendService env svc).run w).2.mgr := by
  -- the script names the frontends of the allocated object, which are those of `svc`
  have hscript : ∀ {set : Typed Ports}, svc.ports = some set → ∀ {f}, f ∉ svc.frontends →
      ∀ op ∈ appendScript (w.allocated svc) (env.appendOrder.visit set.items),
        op.onFrontend ≠ some f := by
    intro set hset f hf
    refine onFrontend_appendScript ?_ (by rwa [frontends_allocated])
    rw [allocated_portList]
    exact visit_perm_portList env.appendOrder hset
  rcases appendService_cases env hm svc with ⟨set, st, hset, haddr, hx, hrun⟩ | ⟨p, _, hrun⟩ |
    ⟨set, e, st, hset, _, hx, hrun⟩
  · rw [hrun]
    have hexec : Touches svc.serviceKey svc.frontends w.mgr
        ((w.afterAllocate svc).withLog st).mgr :=
      touches_exec hm (hscript hset) (congrArg Prod.snd hx) rfl rfl
    exact hexec.trans (touches_set _ _ (stored_allocated w (by rw [hset]; rfl) haddr))
  · rw [hrun]
    exact ⟨id, fun _ => rfl, Or.inl, fun _ => rfl⟩
  · rw [hrun]
    exact touches_exec hm (hscript hset) (congrArg Prod.snd hx) rfl rfl

/-- Without ports nothing is published: the method panics with the id already drawn. -/
theorem appendService_touches_of_nil (env : Env) {svc : Service} (hports : svc.ports = none)
    (key : String) (fronts : List Service4Key) :
    Touches key fronts w.mgr ((appendService env svc).run w).2.mgr := by
  obtain ⟨p, hrun⟩ := appendService_panics env w (Or.inl hports)
  rw [hrun]
  exact ⟨id, fun _ => rfl, Or.inl, fun _ => rfl⟩

/-- What `AppendService` returns is the object it has stored. -/
theorem appendService_ret_stored (hm : w.mgr.maps.NonNil) {svc r : Service} {w' : World}
    (h : (appendService env svc).run w = (.ret r, w')) :
    r = w.allocated svc ∧ Stored svc.serviceKey r := by
  have hpub := appendService_ret hm h
  rcases appendService_cases env hm svc with ⟨set, st, _, _, _, hrun⟩ | ⟨p, _, hrun⟩ |
    ⟨set, e, st, _, _, _, hrun⟩
  · rw [hrun] at h
    obtain rfl := Outcome.ret.inj (congrArg Prod.fst h)
    exact ⟨rfl, stored_allocated w hpub.ports hpub.addressable⟩
  · rw [hrun] at h
    exact absurd (congrArg Prod.fst h) (by simp)
  · rw [hrun] at h
    exact absurd (congrArg Prod.fst h) (by simp)

section Calls

variable {key : String} {fronts : List Service4Key}

/-- Two computations in a row, in terms of the managers they leave. -/
theorem touches_bind {α β : Type} {x : Mgr α} {f : α → Mgr β} {w : World}
    (hx : Touches key fronts w.mgr (x.run w).2.mgr)
    (hf : ∀ a w', x.run w = (.ret a, w') → Touches key fronts w'.mgr ((f a).run w').2.mgr) :
    Touches key fronts w.mgr ((x >>= f).run w).2.mgr :=
  Go.run_bind_trans (R := fun w w' : World => Touches key fronts w.mgr w'.mgr) Touches.trans hx hf

theorem updateService_touches (env : Env) (hs : Sound w.mgr) (svc : Service) :
    Touches svc.serviceKey (w.mgr.frontendsAt svc.serviceKey ++ svc.frontends) w.mgr
      ((updateService env svc).run w).2.mgr := by
  have happend : ∀ {w' : World}, w'.mgr.maps.NonNil →
      Touches svc.serviceKey (w.mgr.frontendsAt svc.serviceKey ++ svc.frontends) w'.mgr
        ((appendService env svc).run w').2.mgr := fun hm =>
    (appendService_touches env hm svc).mono (List.subset_append_right _ _)
  cases hlive : w.mgr.services svc.serviceKey with
  | none =>
    rw [updateService_run_of_absent hlive, Go.run_bind_pure_snd]
    exact happend hs.nonNil
  | some old =>
    rw [updateService_run_of_live hlive, hs.keyed hlive]
    have hdelete : Touches svc.serviceKey (w.mgr.frontendsAt svc.serviceKey ++ svc.frontends) w.mgr
        ((deleteService env svc.serviceKey).run w).2.mgr :=
      (deleteService_touches env hs.nonNil svc.serviceKey).mono (List.subset_append_left _ _)
    refine touches_bind hdelete fun err w' hrun => ?_
    rw [Go.run_bind_pure_snd]
    -- the append runs where the deletion has left the handles in place
    rw [hrun] at hdelete
    exact happend (hdelete.nonNil hs.nonNil)

/-- The slice methods touch the service they find, or nothing. -/
theorem onUpdateEndpointSlice_touches (env : Env) (hs : Sound w.mgr) (new : Api.EndpointSlice) :
    Touches (sliceKey new) (w.mgr.frontendsAt (sliceKey new)) w.mgr
      ((onUpdateEndpointSlice env new).run w).2.mgr := by
  by_cases hlabels : new.labels = []
  · rw [onUpdateEndpointSlice, if_pos hlabels]
    exact Touches.refl _ _ _
  · cases hfound : w.mgr.services (sliceKey new) with
    | none =>
      -- the object built on the spot has no ports, so the append panics
      rw [onUpdateEndpointSlice_run_of_absent hlabels hfound]
      refine touches_bind (Touches.refl _ _ _) fun eps w' hlift => ?_
      obtain rfl : w = w' := congrArg Prod.snd hlift
      refine touches_bind (appendService_touches_of_nil env rfl _ _) fun r w' hrun => ?_
      exact absurd (appendService_ret hs.nonNil hrun).ports (by simp)
    | some service =>
      -- deleted and appended under its own key, which is the one it was found with
      have hkey : service.serviceKey = sliceKey new := hs.keyed hfound
      rw [onUpdateEndpointSlice_run_of_live hlabels hfound, frontendsAt_of_live hfound, hkey]
      have hdelete : Touches (sliceKey new) service.frontends w.mgr
          ((deleteService env (sliceKey new)).run w).2.mgr := by
        have h := deleteService_touches env hs.nonNil (sliceKey new)
        rwa [frontendsAt_of_live hfound] at h
      refine touches_bind (Touches.refl _ _ _) fun eps w' hlift => ?_
      obtain rfl : w = w' := congrArg Prod.snd hlift
      refine touches_bind hdelete fun _ w₁ hdel => ?_
      rw [hdel] at hdelete
      have hm₁ := hdelete.nonNil hs.nonNil
      refine touches_bind ?_ fun r w₂ happ => ?_
      · rw [← hkey]
        exact appendService_touches env hm₁ { service with endpoints := eps }
      · obtain ⟨-, hst⟩ := appendService_ret_stored hm₁ happ
        exact touches_set w₂ _ (hkey ▸ hst)

theorem onDeleteEndpointSlice_touches (env : Env) (hs : Sound w.mgr) (slice : Api.EndpointSlice) :
    Touches (sliceKey slice) (w.mgr.frontendsAt (sliceKey slice)) w.mgr
      ((onDeleteEndpointSlice env slice).run w).2.mgr := by
  cases hfound : w.mgr.services (sliceKey slice) with
  | none =>
    rw [onDeleteEndpointSlice_run_of_absent hfound]
    exact Touches.refl _ _ _
  | some service =>
    rw [onDeleteEndpointSlice_run_of_live hfound, hs.keyed hfound]
    exact touches_bind (deleteService_touches env hs.nonNil (sliceKey slice))
      fun _ w' _ => touches_erase w' _ _

end Calls

/-! ### Every call -/

/-- The key of the service a call is after, as the method computes it. -/
def Call.target : Call → String
  | .updateService svc | .appendService svc => svc.serviceKey
  | .deleteService key => key
  | .onUpdateEndpointSlice slice | .onDeleteEndpointSlice slice => sliceKey slice

/-- The frontends a call brings along. -/
def Call.frontends : Call → List Service4Key
  | .updateService svc | .appendService svc => svc.frontends
  | _ => []

/-- **The frame of a call**, returned or not. -/
theorem invoke_touches (hs : Sound s) (env : Env) (call : Call) :
    Touches call.target (s.frontendsAt call.target ++ call.frontends) s
      (s.invoke env call).2.mgr := by
  cases call with
  | updateService svc =>
    rw [ServiceManager.invoke, Call.computation, Go.run_discard_snd]
    exact updateService_touches env (w := ⟨s, []⟩) hs svc
  | appendService svc =>
    rw [ServiceManager.invoke, Call.computation, Go.run_discard_snd]
    exact (appendService_touches env (w := ⟨s, []⟩) hs.nonNil svc).mono
      (List.subset_append_right _ _)
  | deleteService key =>
    rw [ServiceManager.invoke, Call.computation, Go.run_discard_snd]
    exact (deleteService_touches env (w := ⟨s, []⟩) hs.nonNil key).mono
      (List.subset_append_left _ _)
  | onUpdateEndpointSlice new =>
    exact (onUpdateEndpointSlice_touches env (w := ⟨s, []⟩) hs new).mono
      (List.subset_append_left _ _)
  | onDeleteEndpointSlice slice =>
    exact (onDeleteEndpointSlice_touches env (w := ⟨s, []⟩) hs slice).mono
      (List.subset_append_left _ _)

/-- Every state that calls reach is sound, whichever methods are called and whether or
not they return. -/
theorem sound_of_calls {allowed : Call → Prop} (h : (managerSystem allowed).Reachable s) :
    Sound s := by
  refine h.invariant sound_init fun a l b hI hst => ?_
  rw [← hst.2]
  exact (invoke_touches hI l.env l.call).sound hI

end EProxy
