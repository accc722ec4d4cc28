import EProxy.Manager.Store

/-!
# The operations of a call

What a call of the manager does to the maps while it runs, and what it stores in
`services`, told without scripts: it deletes entries of services that are live when it
starts and writes entries of objects that it `Offers`. `Issues` is that set of
operations, and `invoke_conducts` says of all five methods, returned or not, that the maps
at every point of the call are in reach of such operations and that every service stored
afterwards was stored before or is an object offered.

So a property of the maps that holds at every moment of a run, with calls cut off anywhere,
comes down to four kinds of operations.
-/

namespace EProxy

open Framework Machine

/-- The objects a call publishes, before they get their id. A slice event publishes the
service it finds again, with the addresses it keeps of the slice. -/
inductive Offers (s : ServiceManager) : Call → Service → Prop
  | updateService (svc : Service) : Offers s (.updateService svc) svc
  | appendService (svc : Service) : Offers s (.appendService svc) svc
  | onUpdateEndpointSlice {new : Api.EndpointSlice} {service : Service} {eps : List UInt32} :
      s.services (sliceKey new) = some service → onUpdateEndpoints [] new.endpoints = .ret eps →
      Offers s (.onUpdateEndpointSlice new) { service with endpoints := eps }

/-- The operations a call may issue. -/
inductive Issues (s : ServiceManager) (call : Call) : MapOp → Prop
  | deleteService {key : String} {old : Service} {p : Ports} : s.services key = some old →
      p ∈ old.portList → Issues s call (.deleteService (old.frontendKey p))
  | deleteEndpoint {key : String} {old : Service} {i : ℕ} : s.services key = some old →
      i < old.endpoints.length → Issues s call (.deleteEndpoint ⟨slot old.serviceId i⟩)
  | updateService {obj : Service} (id : UInt16) {p : Ports} : Offers s call obj →
      p ∈ obj.portList →
      Issues s call (.updateService (obj.frontendKey p)
        ⟨id, UInt16.ofNat obj.endpoints.length⟩)
  | updateEndpoint {obj : Service} (id : UInt16) {p : Ports} {eip : UInt32} {i : ℕ} :
      Offers s call obj → p ∈ obj.portList → (eip, i) ∈ obj.endpoints.zipIdx 1 →
      Issues s call (.updateEndpoint ⟨slot id i⟩ (backendValue eip p))

/-- What a computation may do to the world: operations of one kind, and new services of
another. -/
structure Conducts (P : MapOp → Prop) (Q : Service → Prop) (w w' : World) : Prop where
  maps : bpfMachine.Leads P w.mgr.maps w'.mgr.maps
  points : ∀ ev ∈ w'.journal, ev ∈ w.journal ∨
    bpfMachine.Leads P w.mgr.maps (bpfMachine.after ev)
  stored : ∀ k svc, w'.mgr.services k = some svc → w.mgr.services k = some svc ∨ Q svc

section Conducts

variable {P : MapOp → Prop} {Q : Service → Prop} {w w₁ w' : World}

theorem Conducts.refl (w : World) : Conducts P Q w w :=
  ⟨.refl, fun _ => Or.inl, fun _ _ => Or.inl⟩

theorem Conducts.trans (h : Conducts P Q w w₁) (h' : Conducts P Q w₁ w') : Conducts P Q w w' where
  maps := h.maps.trans h'.maps
  points := by
    intro ev hev
    rcases h'.points ev hev with hold | hnew
    · exact h.points ev hold
    · exact Or.inr (h.maps.trans hnew)
  stored := by
    intro k svc hk
    rcases h'.stored k svc hk with hold | hnew
    · exact h.stored k svc hold
    · exact Or.inr hnew

/-- Two computations in a row. -/
theorem Conducts.bind {α β : Type} {x : Mgr α} {f : α → Mgr β}
    (hx : Conducts P Q w (x.run w).2)
    (hf : ∀ a w', x.run w = (.ret a, w') → Conducts P Q w' ((f a).run w').2) :
    Conducts P Q w ((x >>= f).run w).2 :=
  Go.run_bind_trans (R := Conducts P Q) Conducts.trans hx hf

/-- The handles stay where they are. -/
theorem leads_nonNil {m m' : Maps} (h : bpfMachine.Leads P m m') (hm : m.NonNil) : m'.NonNil :=
  h.invariant hm fun op _ _ hm => apply_nonNil hm op

/-- A script of operations of the kind, from the log it starts in. -/
theorem conducts_of_log {fault : ℕ → Option MapError} {ops : List MapOp} (hops : ∀ op ∈ ops, P op)
    (hlog : w'.log = (bpfMachine.exec fault w.log ops).2)
    (hstored : ∀ k svc, w'.mgr.services k = some svc → w.mgr.services k = some svc ∨ Q svc) :
    Conducts P Q w w' := by
  obtain ⟨hmaps, hpoints⟩ := exec_leads bpfMachine fault w.log hops
  rw [← hlog] at hmaps hpoints
  exact ⟨hmaps, hpoints, hstored⟩

/-- Storing one more service. -/
theorem conducts_setService (w : World) (key : String) {svc : Service} (h : Q svc) :
    Conducts P Q w (w.setService key svc) := by
  refine ⟨.refl, fun _ => Or.inl, fun k x hk => ?_⟩
  have hset : w.mgr.services.set key svc k = some x := hk
  rw [Table.set_apply] at hset
  split at hset
  · rw [← Option.some.inj hset]
    exact Or.inr h
  · exact Or.inl hset

theorem conducts_eraseService (w : World) (key : String) :
    Conducts P Q w (w.eraseService key) :=
  ⟨.refl, fun _ => Or.inl, fun _ _ hk => Or.inl (Table.of_erase hk)⟩

end Conducts

/-! ### The two basic methods -/

section Methods

variable {w : World} {env : Env} {Q : Service → Prop}

theorem mem_deleteScript {svc : Service} {order : List Ports} {op : MapOp}
    (h : op ∈ deleteScript svc order) :
    (∃ p ∈ order, op = .deleteService (svc.frontendKey p)) ∨
      ∃ i < svc.endpoints.length, op = .deleteEndpoint ⟨slot svc.serviceId i⟩ := by
  obtain ⟨p, hp, hop⟩ := List.mem_flatMap.mp h
  rcases List.mem_cons.mp hop with rfl | hop
  · exact Or.inl ⟨p, hp, rfl⟩
  · obtain ⟨i, hi, rfl⟩ := List.mem_map.mp hop
    have hbounds := List.mem_range'_1.mp hi
    exact Or.inr ⟨i, by omega, rfl⟩

/-- `DeleteService`, of what is live at the start of a call, issues deletions. -/
theorem deleteService_conducts {s : ServiceManager} {call : Call} (hm : w.mgr.maps.NonNil)
    (hsame : w.mgr.services = s.services) (key : String) :
    Conducts (Issues s call) Q w ((deleteService env key).run w).2 := by
  obtain ⟨ops, hops, hlog, -⟩ := deleteService_log env hm key
  refine conducts_of_log ?_ hlog fun k svc hk => Or.inl ?_
  · rcases hops with rfl | ⟨svc, order, hlive, hperm, rfl⟩
    · exact fun op hop => absurd hop List.not_mem_nil
    · rw [hsame] at hlive
      intro op hop
      rcases mem_deleteScript hop with ⟨p, hp, rfl⟩ | ⟨i, hi, rfl⟩
      · exact .deleteService hlive (hperm.mem_iff.mp hp)
      · exact .deleteEndpoint hlive hi
  · rw [(deleteService_books env key w).services] at hk
    split at hk
    · exact Table.of_erase hk
    · exact hk

/-- `AppendService` of an object that is offered issues its updates, and stores it with some
id. -/
theorem appendService_conducts {s : ServiceManager} {call : Call} {obj : Service}
    (hm : w.mgr.maps.NonNil) (hoffer : Offers s call obj)
    (hstore : ∀ id, Q { obj with serviceId := id }) :
    Conducts (Issues s call) Q w ((appendService env obj).run w).2 := by
  obtain ⟨id, hid⟩ := allocated_eq w obj
  obtain ⟨ops, hops, hlog⟩ := appendService_log env hm obj
  refine conducts_of_log ?_ hlog fun k svc hk => ?_
  · rcases hops with rfl | ⟨order, hperm, rfl⟩
    · exact fun op hop => absurd hop List.not_mem_nil
    · intro op hop
      rw [hid, ← appendScriptOn_of_nonNil Maps.nonNil_empty] at hop
      obtain ⟨p, hp, rfl | ⟨⟨eip, i⟩, he, rfl⟩⟩ := mem_appendScriptOn hop
      -- the keys are those of the object, whatever its id is
      · exact (.updateService id hoffer (hperm.mem_iff.mp hp) : Issues s call
          (.updateService (obj.frontendKey p) ⟨id, UInt16.ofNat obj.endpoints.length⟩))
      · exact (.updateEndpoint id hoffer (hperm.mem_iff.mp hp) he : Issues s call
          (.updateEndpoint ⟨slot id i⟩ (backendValue eip p)))
  · rcases appendService_cases env hm obj with ⟨set, st, _, _, _, hrun⟩ | ⟨p, _, hrun⟩ |
      ⟨set, e, st, _, _, _, hrun⟩
    · rw [hrun] at hk
      have hset : w.mgr.services.set obj.serviceKey (w.allocated obj) k = some svc := hk
      rw [Table.set_apply] at hset
      split at hset
      · rw [← Option.some.inj hset, hid]
        exact Or.inr (hstore id)
      · exact Or.inl hset
    · rw [hrun] at hk
      exact Or.inl hk
    · rw [hrun] at hk
      exact Or.inl hk

end Methods

/-! ### All methods -/

/-- A service that a call stores: an object it offers, with some id. -/
def OfferedWithId (s : ServiceManager) (call : Call) (svc : Service) : Prop :=
  ∃ obj id, Offers s call obj ∧ svc = { obj with serviceId := id }

section Calls

variable {s : ServiceManager} {env : Env}

/-- The object `AppendService` returns. -/
theorem appendService_ret_eq {w w' : World} {obj r : Service} (hm : w.mgr.maps.NonNil)
    (h : (appendService env obj).run w = (.ret r, w')) :
    ∃ id, r = { obj with serviceId := id } := by
  rcases appendService_cases env hm obj with ⟨set, st, _, _, _, hrun⟩ | ⟨p, _, hrun⟩ |
    ⟨set, e, st, _, _, _, hrun⟩
  · rw [hrun] at h
    obtain ⟨id, hid⟩ := allocated_eq w obj
    exact ⟨id, (Outcome.ret.inj (congrArg Prod.fst h)).symm.trans hid⟩
  · rw [hrun] at h
    exact absurd (congrArg Prod.fst h) (by simp)
  · rw [hrun] at h
    exact absurd (congrArg Prod.fst h) (by simp)

theorem updateService_conducts (hm : s.maps.NonNil) (svc : Service) :
    Conducts (Issues s (.updateService svc)) (OfferedWithId s (.updateService svc)) ⟨s, []⟩
      ((updateService env svc).run ⟨s, []⟩).2 := by
  have happend : ∀ {w : World}, w.mgr.maps.NonNil →
      Conducts (Issues s (.updateService svc)) (OfferedWithId s (.updateService svc)) w
        ((appendService env svc).run w).2 := fun hm =>
    appendService_conducts hm (.updateService svc) fun id => ⟨svc, id, .updateService svc, rfl⟩
  cases hlive : s.services svc.serviceKey with
  | none =>
    rw [updateService_run_of_absent hlive, Go.run_bind_pure_snd]
    exact happend hm
  | some old =>
    rw [updateService_run_of_live hlive]
    have hdelete : Conducts (Issues s (.updateService svc)) (OfferedWithId s (.updateService svc))
        ⟨s, []⟩ ((deleteService env old.serviceKey).run ⟨s, []⟩).2 :=
      deleteService_conducts (w := ⟨s, []⟩) hm rfl old.serviceKey
    refine hdelete.bind fun err w₁ hrun => ?_
    rw [hrun] at hdelete
    rw [Go.run_bind_pure_snd]
    exact happend (leads_nonNil hdelete.maps hm)

theorem onUpdateEndpointSlice_conducts (hm : s.maps.NonNil) (new : Api.EndpointSlice) :
    Conducts (Issues s (.onUpdateEndpointSlice new)) (OfferedWithId s (.onUpdateEndpointSlice new))
      ⟨s, []⟩ ((onUpdateEndpointSlice env new).run ⟨s, []⟩).2 := by
  by_cases hlabels : new.labels = []
  · rw [onUpdateEndpointSlice, if_pos hlabels]
    exact .refl _
  cases hfound : s.services (sliceKey new) with
  | none =>
    -- an object without ports is not published, and nothing is stored
    rw [onUpdateEndpointSlice_run_of_absent hlabels hfound]
    refine Conducts.bind (.refl _) fun eps w₁ hlift => ?_
    obtain rfl : (⟨s, []⟩ : World) = w₁ := congrArg Prod.snd hlift
    have hnil : (⟨new.serviceName.text, new.ns.text, 0, [], none, eps⟩ : Service).ports = none :=
      rfl
    obtain ⟨p, hpanic⟩ := appendService_panics env ⟨s, []⟩ (Or.inl hnil)
    rw [Go.run_bind_panic hpanic]
    exact ⟨.refl, fun _ => Or.inl, fun _ _ => Or.inl⟩
  | some service =>
    rw [onUpdateEndpointSlice_run_of_live hlabels hfound]
    refine Conducts.bind (.refl _) fun eps w₁ hlift => ?_
    obtain ⟨heps, hw⟩ := Prod.mk.inj hlift
    subst hw
    have hoffer : Offers s (.onUpdateEndpointSlice new) { service with endpoints := eps } :=
      .onUpdateEndpointSlice hfound heps
    have hdelete : Conducts (Issues s (.onUpdateEndpointSlice new))
        (OfferedWithId s (.onUpdateEndpointSlice new)) ⟨s, []⟩
        ((deleteService env service.serviceKey).run ⟨s, []⟩).2 :=
      deleteService_conducts (w := ⟨s, []⟩) hm rfl service.serviceKey
    refine hdelete.bind fun _ w₁ hdel => ?_
    rw [hdel] at hdelete
    have hm₁ := leads_nonNil hdelete.maps hm
    refine (appendService_conducts hm₁ hoffer fun id => ⟨_, id, hoffer, rfl⟩).bind
      fun r w₂ happ => ?_
    obtain ⟨id, hr⟩ := appendService_ret_eq hm₁ happ
    exact conducts_setService w₂ _ ⟨_, id, hoffer, hr⟩

theorem onDeleteEndpointSlice_conducts {Q : Service → Prop} (hm : s.maps.NonNil)
    (slice : Api.EndpointSlice) :
    Conducts (Issues s (.onDeleteEndpointSlice slice)) Q ⟨s, []⟩
      ((onDeleteEndpointSlice env slice).run ⟨s, []⟩).2 := by
  cases hfound : s.services (sliceKey slice) with
  | none =>
    rw [onDeleteEndpointSlice_run_of_absent hfound]
    exact .refl _
  | some service =>
    rw [onDeleteEndpointSlice_run_of_live hfound]
    exact (deleteService_conducts (w := ⟨s, []⟩) hm rfl service.serviceKey).bind
      fun _ w₁ _ => conducts_eraseService w₁ _

/-- **What a call may do**, whichever of the five methods it is and whether it returns or
not. -/
theorem invoke_conducts (hm : s.maps.NonNil) (env : Env) (call : Call) :
    Conducts (Issues s call) (OfferedWithId s call) ⟨s, []⟩ (s.invoke env call).2 := by
  unfold ServiceManager.invoke
  cases call with
  | updateService svc =>
    simp only [Call.computation, Go.run_discard_snd]
    exact updateService_conducts hm svc
  | appendService svc =>
    simp only [Call.computation, Go.run_discard_snd]
    exact appendService_conducts (w := ⟨s, []⟩) hm (.appendService svc)
      fun id => ⟨svc, id, .appendService svc, rfl⟩
  | deleteService key =>
    simp only [Call.computation, Go.run_discard_snd]
    exact deleteService_conducts (w := ⟨s, []⟩) hm rfl key
  | onUpdateEndpointSlice new => exact onUpdateEndpointSlice_conducts hm new
  | onDeleteEndpointSlice slice => exact onDeleteEndpointSlice_conducts hm slice

end Calls

end EProxy
