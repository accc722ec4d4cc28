import EProxy.Kubernetes.Controller
import EProxy.Manager.Ids

/-!
# What handling a key does

A key of the queue names the kind, the namespace and the name of an object, and
`splitSlash` gets them back (`splitSlash_sliceQueueKey`). Only keys of endpoint slices do
any work. For such a key `endpointCall` says which call of the manager the handler
makes, from the contents of the listers alone, and `endpointHandler_run` that making it
is all the handler does.

Consequently the manager inside the cluster is a manager of the kind the other files
are about: the calls it gets are calls on fresh objects, and they return
(`manager_reachable`). `work_cases` takes a step of a worker apart.
-/

namespace EProxy

open Framework

/-! ### Keys -/

theorem splitSlash_join {a b c : String} (ha : '/' ∉ a.toList) (hb : '/' ∉ b.toList)
    (hc : '/' ∉ c.toList) : splitSlash (a ++ "/" ++ (b ++ "/" ++ c)) = [a, b, c] := by
  have hjoin : (a ++ "/" ++ (b ++ "/" ++ c)).toList =
      ['/'].intercalate [a.toList, b.toList, c.toList] := by
    simp [String.toList_append, List.intercalate, List.intersperse]
  rw [splitSlash, hjoin, List.splitOn_intercalate]
  · simp [String.ofList_toList]
  · simp [ha, hb, hc]
  · simp

theorem splitSlash_objectKey {α : Type} [Object α] {typ : String} (htyp : '/' ∉ typ.toList)
    (o : α) :
    splitSlash (typ ++ "/" ++ Object.key o) =
      [typ, (Object.ns o).text, (Object.name o).text] := by
  rw [Object.key_eq]
  exact splitSlash_join htyp (Object.ns o).noSlash (Object.name o).noSlash

/-- The key `Enqueue` adds for a slice. -/
def sliceQueueKey (slice : Api.EndpointSlice) : String :=
  endpointSliceType ++ "/" ++ Object.key slice

theorem splitSlash_sliceQueueKey (slice : Api.EndpointSlice) :
    splitSlash (sliceQueueKey slice) = [endpointSliceType, slice.ns.text, slice.name.text] :=
  splitSlash_objectKey (by decide) slice

/-! ### The call behind a key -/

/-- The call `EndpointHandler` makes, or the error it returns. -/
def endpointCall (services : Store Api.Service) (slices : Store Api.EndpointSlice)
    (ns name : String) : Outcome MapError (Except HandlerError Call) :=
  match slices.get ns name with
  | none => .ret (.error (.endpointSliceNotFound name))
  | some slice =>
    match services.get ns slice.serviceName.text with
    | none => .ret (.error (.serviceNotFound slice.serviceName.text))
    | some svc => do
      let bsvc ← newService svc slice
      .ret (.ok (if slice.terminating then .deleteService bsvc.serviceKey
        else .updateService bsvc))

section Run

variable {services : Store Api.Service} {slices : Store Api.EndpointSlice} {env : Env} {w : World}

/-- **`EndpointHandler` is its call.** -/
theorem endpointHandler_run (ns name : String) :
    (endpointHandler services slices env ns name).run w =
      match endpointCall services slices ns name with
      | .panic p => (.panic p, w)
      | .ret (.error e) => (.ret (some e), w)
      | .ret (.ok call) => (call.computation env >>= fun _ => pure none).run w := by
  unfold endpointHandler endpointCall
  cases slices.get ns name with
  | none => rfl
  | some slice =>
    simp only
    cases services.get ns slice.serviceName.text with
    | none => rfl
    | some svc =>
      simp only
      cases hnew : (newService svc slice : Outcome MapError Service) with
      | panic p => rfl
      | ret bsvc =>
        rw [Go.run_bind_ret (Go.run_lift (.ret bsvc) w), Outcome.ret_bind]
        -- either call is made for its effect, and the handler returns nil
        cases slice.terminating with
        | true => exact (Go.run_discard_bind (deleteService env bsvc.serviceKey) _ w).symm
        | false => exact (Go.run_discard_bind (updateService env bsvc) _ w).symm

/-- **When the handler makes a call**: both objects are in the listers. -/
theorem endpointCall_eq_ok_iff {ns name : String} {call : Call} :
    endpointCall services slices ns name = .ret (.ok call) ↔
      ∃ slice svc bsvc, slices.get ns name = some slice ∧
        services.get ns slice.serviceName.text = some svc ∧
        (newService svc slice : Outcome MapError Service) = .ret bsvc ∧
        call = if slice.terminating then .deleteService bsvc.serviceKey
          else .updateService bsvc := by
  constructor
  · intro h
    unfold endpointCall at h
    cases hslice : slices.get ns name with
    | none => rw [hslice] at h; exact absurd h (by simp)
    | some slice =>
      cases hsvc : services.get ns slice.serviceName.text with
      | none => simp only [hslice, hsvc] at h; exact absurd h (by simp)
      | some svc =>
        cases hnew : (newService svc slice : Outcome MapError Service) with
        | panic p => simp only [hslice, hsvc, hnew] at h; exact absurd h (by simp)
        | ret bsvc =>
          simp only [hslice, hsvc, hnew, Outcome.ret_bind] at h
          exact ⟨slice, svc, bsvc, rfl, hsvc, hnew, (Except.ok.inj (Outcome.ret.inj h)).symm⟩
  · rintro ⟨slice, svc, bsvc, hslice, hsvc, hnew, rfl⟩
    simp only [endpointCall, hslice, hsvc, hnew, Outcome.ret_bind]

/-- The handler fails only if one of the objects is missing. -/
theorem endpointCall_ne_error {slice : Api.EndpointSlice} {svc : Api.Service}
    (hslice : slices.get slice.ns.text slice.name.text = some slice)
    (hsvc : services.get slice.ns.text slice.serviceName.text = some svc) (e : HandlerError) :
    endpointCall services slices slice.ns.text slice.name.text ≠ .ret (.error e) := by
  intro h
  unfold endpointCall at h
  cases hnew : (newService svc slice : Outcome MapError Service) with
  | panic p => simp only [hslice, hsvc, hnew] at h; exact absurd h (by simp)
  | ret bsvc => simp only [hslice, hsvc, hnew, Outcome.ret_bind] at h; exact absurd h (by simp)

/-- The calls of the handler are calls on fresh objects. -/
theorem endpointCall_fresh {ns name : String} {call : Call}
    (h : endpointCall services slices ns name = .ret (.ok call)) : call.Fresh := by
  obtain ⟨slice, svc, bsvc, -, -, hnew, rfl⟩ := endpointCall_eq_ok_iff.mp h
  obtain ⟨eps, -, rfl⟩ := newService_eq_ret hnew
  cases slice.terminating with
  | true => exact trivial
  | false => rfl

/-- **Everything the handler can do when it returns.** -/
theorem handler_ret {key : String} {r : Option HandlerError} {w' : World}
    (h : (handler services slices env key).run w = (.ret r, w')) :
    (w' = w ∧ ∀ ns name, splitSlash key = [endpointSliceType, ns, name] →
      ∃ e, endpointCall services slices ns name = .ret (.error e)) ∨
    ∃ ns name call, splitSlash key = [endpointSliceType, ns, name] ∧
      endpointCall services slices ns name = .ret (.ok call) ∧
      (call.computation env).run w = (.ret (), w') := by
  unfold handler at h
  split at h
  · next typ a b hsplit =>
    split at h
    · next htyp =>
      -- `ServiceHandler` does nothing
      refine Or.inl ⟨(congrArg Prod.snd h).symm, fun ns name hkey => ?_⟩
      have heq := (List.cons.inj (hsplit.symm.trans hkey)).1
      rw [htyp] at heq
      exact absurd heq (by decide)
    · split at h
      · next htyp =>
        subst htyp
        rw [endpointHandler_run] at h
        split at h
        · exact absurd (congrArg Prod.fst h) (by simp)
        · next e hcall =>
          -- one of the objects is missing and the error is returned
          refine Or.inl ⟨(congrArg Prod.snd h).symm, fun ns name hkey => ?_⟩
          obtain ⟨rfl, rfl⟩ : a = ns ∧ b = name := by simpa using hsplit.symm.trans hkey
          exact ⟨e, hcall⟩
        · next call hcall =>
          obtain ⟨u, hrun⟩ := Go.run_bind_pure_eq_ret h
          exact Or.inr ⟨a, b, call, hsplit, hcall, hrun⟩
      · next htyp =>
        refine Or.inl ⟨(congrArg Prod.snd h).symm, fun ns name hkey => ?_⟩
        exact absurd (List.cons.inj (hsplit.symm.trans hkey)).1 htyp
  · next hsplit =>
    -- not three parts, so not a key of a slice
    refine Or.inl ⟨(congrArg Prod.snd h).symm, fun ns name hkey => ?_⟩
    exact absurd hkey (hsplit _ _ _)

end Run

/-! ### Steps of the cluster -/

variable {c c' : Cluster} {key : String} {env : Env}

/-- **Everything a worker can do.** It leaves the listers alone; and either it leaves
the manager alone too, or the key is one of a slice, the handler makes the call
`endpointCall` tells, and the call returns. -/
theorem work_cases (h : clusterSystem.step c (.work key env) c') :
    c'.serviceLister = c.serviceLister ∧ c'.endpointsLister = c.endpointsLister ∧
    (c'.serviceManager = c.serviceManager ∧
        (∀ ns name, splitSlash key = [endpointSliceType, ns, name] →
          ∃ e, endpointCall c.serviceLister c.endpointsLister ns name = .ret (.error e)) ∨
      ∃ ns name call, splitSlash key = [endpointSliceType, ns, name] ∧
        endpointCall c.serviceLister c.endpointsLister ns name = .ret (.ok call) ∧
        (returningSystem Call.Fresh).step c.serviceManager ⟨call, env⟩ c'.serviceManager) := by
  obtain ⟨-, hproc⟩ := h
  unfold Cluster.processNextWorkItem at hproc
  rcases hrun : (handler c.serviceLister c.endpointsLister env key).run
    ⟨c.serviceManager, []⟩ with ⟨r | p, w⟩
  · -- with an error or without, only the queue is treated differently
    have hsame : c'.serviceLister = c.serviceLister ∧ c'.endpointsLister = c.endpointsLister ∧
        c'.serviceManager = w.mgr := by
      rw [hrun] at hproc
      cases r with
      | none => rw [← Outcome.ret.inj hproc]; exact ⟨rfl, rfl, rfl⟩
      | some e => rw [← Outcome.ret.inj hproc]; exact ⟨rfl, rfl, rfl⟩
    refine ⟨hsame.1, hsame.2.1, ?_⟩
    rw [hsame.2.2]
    rcases handler_ret hrun with ⟨rfl, hnone⟩ | ⟨ns, name, call, hkey, hcall, hrun⟩
    · exact Or.inl ⟨rfl, hnone⟩
    · refine Or.inr ⟨ns, name, call, hkey, hcall, endpointCall_fresh hcall, ?_, ?_⟩
      · exact congrArg Prod.fst hrun
      · exact congrArg (fun r => r.2.mgr) hrun
  · -- a panic is no step
    rw [hrun] at hproc
    exact absurd hproc (by simp)

/-- **The manager of the cluster is a manager.** In every state the cluster reaches its
manager is one that calls on fresh objects, all returning, lead to. -/
theorem manager_reachable (h : clusterSystem.Reachable c) :
    (returningSystem Call.Fresh).Reachable c.serviceManager := by
  refine h.invariant (I := fun c => (returningSystem Call.Fresh).Reachable c.serviceManager)
    (System.reachable_init _) fun a l b hI hst => ?_
  cases l with
  | event e =>
    obtain rfl : b = a.deliver e := hst
    exact hI
  | work key env =>
    rcases (work_cases hst).2.2 with ⟨hsame, -⟩ | ⟨ns, name, call, -, -, hstep⟩
    · rw [hsame]
      exact hI
    · exact hI.step hstep

/-- A step of the cluster keeps its manager sound. -/
theorem sound_cluster_step {l : ClusterLabel} (hs : Sound c.serviceManager)
    (h : clusterSystem.step c l c') : Sound c'.serviceManager := by
  cases l with
  | event e =>
    obtain rfl : c' = c.deliver e := h
    exact hs
  | work key env =>
    rcases (work_cases h).2.2 with ⟨hsame, -⟩ | ⟨ns, name, call, -, -, hstep⟩
    · rw [hsame]
      exact hs
    · exact sound_step hs ⟨hstep.1.updateOrDelete, hstep.2⟩

/-- The service of the call is the one the slice is labelled with. -/
theorem newService_serviceKey {services : Store Api.Service} {slice : Api.EndpointSlice}
    {svc : Api.Service} {bsvc : Service}
    (hsvc : services.get slice.ns.text slice.serviceName.text = some svc)
    (hnew : (newService svc slice : Outcome MapError Service) = .ret bsvc) :
    bsvc.serviceKey = slice.labelKey := by
  obtain ⟨hns, hname⟩ := Store.get_eq_some hsvc
  obtain ⟨eps, -, rfl⟩ := newService_eq_ret hnew
  change svc.ns.text ++ "/" ++ svc.name.text = _
  rw [show svc.ns.text = _ from hns, show svc.name.text = _ from hname]
  rfl

/-- Handling the key of a Service leaves the manager alone. -/
theorem work_service {o : Api.Service} (hkey : (Obj.service o).queueKey = some key)
    (h : clusterSystem.step c (.work key env) c') : c'.serviceManager = c.serviceManager := by
  obtain rfl : serviceType ++ "/" ++ Object.key o = key := Option.some.inj hkey
  have hsplit := splitSlash_objectKey (by decide : '/' ∉ serviceType.toList) o
  rcases (work_cases h).2.2 with ⟨hsame, -⟩ | ⟨ns', name', call, hkey', -⟩
  · exact hsame
  · exact absurd (List.cons.inj (hsplit.symm.trans hkey')).1 (by decide)

/-- **The effect of a worker on the manager.** Either there is none; or the key is one
of a slice that is in the lister and so is its service, and the worker clears the key of
the service and, unless the slice is terminating, publishes what `NewService` makes of
the two objects. -/
theorem work_effect (hs : Sound c.serviceManager) (h : clusterSystem.step c (.work key env) c') :
    (c'.serviceManager = c.serviceManager ∧ ∀ slice svc, key = sliceQueueKey slice →
      c.endpointsLister.get slice.ns.text slice.name.text = some slice →
      c.serviceLister.get slice.ns.text slice.serviceName.text ≠ some svc) ∨
    ∃ slice svc bsvc s₁,
      splitSlash key = [endpointSliceType, slice.ns.text, slice.name.text] ∧
      c.endpointsLister.get slice.ns.text slice.name.text = some slice ∧
      c.serviceLister.get slice.ns.text slice.serviceName.text = some svc ∧
      (newService svc slice : Outcome MapError Service) = .ret bsvc ∧
      Cleared c.serviceManager slice.labelKey s₁ ∧
      if slice.terminating then c'.serviceManager = s₁
        else ∃ order, Publishes s₁ bsvc order c'.serviceManager := by
  rcases (work_cases h).2.2 with ⟨hsame, hnone⟩ | ⟨ns, name, call, hkey, hcall, hstep⟩
  · refine Or.inl ⟨hsame, fun slice svc hkey hslice hsvc => ?_⟩
    obtain ⟨e, he⟩ := hnone slice.ns.text slice.name.text
      (by rw [hkey, splitSlash_sliceQueueKey])
    exact endpointCall_ne_error hslice hsvc e he
  · obtain ⟨slice, svc, bsvc, hslice, hsvc, hnew, rfl⟩ := endpointCall_eq_ok_iff.mp hcall
    obtain ⟨rfl, rfl⟩ : slice.ns.text = ns ∧ slice.name.text = name := Store.get_eq_some hslice
    have hk := newService_serviceKey hsvc hnew
    rcases allowed_step_cases Call.Fresh.updateOrDelete hs hstep with ⟨k, hc, hcl⟩ |
      ⟨x, s₁, order, hc, _, hcl, hpub⟩
    · -- a deletion is the call for a terminating slice, an update the other one
      cases hterm : slice.terminating with
      | true =>
        rw [hterm, if_pos rfl] at hc
        obtain rfl : bsvc.serviceKey = k := Call.deleteService.inj hc
        rw [hk] at hcl
        exact Or.inr ⟨slice, svc, bsvc, _, hkey, hslice, hsvc, hnew, hcl,
          by rw [hterm, if_pos rfl]⟩
      | false =>
        rw [hterm] at hc
        exact absurd hc (by simp)
    · cases hterm : slice.terminating with
      | true =>
        rw [hterm] at hc
        exact absurd hc (by simp)
      | false =>
        rw [hterm] at hc
        obtain rfl : bsvc = x := Call.updateService.inj hc
        rw [hk] at hcl
        exact Or.inr ⟨slice, svc, bsvc, s₁, hkey, hslice, hsvc, hnew, hcl,
          by rw [hterm]; exact ⟨order, hpub⟩⟩

/-- What a worker leaves under the key of the service it has handled. -/
theorem services_after_work {s₁ s' : ServiceManager} {slice : Api.EndpointSlice}
    {services : Store Api.Service} {svc : Api.Service} {bsvc : Service}
    (hsvc : services.get slice.ns.text slice.serviceName.text = some svc)
    (hnew : (newService svc slice : Outcome MapError Service) = .ret bsvc)
    (hcl : Cleared c.serviceManager slice.labelKey s₁)
    (hpub : if slice.terminating then s' = s₁ else ∃ order, Publishes s₁ bsvc order s')
    (k : String) :
    s'.services k =
      if k = slice.labelKey then
        if slice.terminating then none else some (c.serviceManager.allocated bsvc)
      else c.serviceManager.services k := by
  -- clearing a key does not touch the marked ids
  have halloc : s₁.allocated bsvc = c.serviceManager.allocated bsvc := by
    rw [ServiceManager.allocated, hcl.cache]
    rfl
  cases hterm : slice.terminating with
  | true =>
    rw [hterm, if_pos rfl] at hpub
    rw [hpub, hcl.services_apply, if_pos rfl]
  | false =>
    rw [hterm] at hpub
    obtain ⟨order, hpub⟩ := hpub
    rw [hpub.services_apply, hcl.services_apply, newService_serviceKey hsvc hnew, halloc]
    split
    · rfl
    · rfl

/-- **Handling a slice.** When the slice and its service are in the listers and the
handler returns, the manager holds what `NewService` makes of the two, or nothing if the
slice is terminating. -/
theorem services_after_slice (hs : Sound c.serviceManager) {slice : Api.EndpointSlice}
    {svc : Api.Service} (h : clusterSystem.step c (.work (sliceQueueKey slice) env) c')
    (hslice : c.endpointsLister.get slice.ns.text slice.name.text = some slice)
    (hsvc : c.serviceLister.get slice.ns.text slice.serviceName.text = some svc) :
    ∃ bsvc, (newService svc slice : Outcome MapError Service) = .ret bsvc ∧
      c'.serviceManager.services slice.labelKey =
        if slice.terminating then none else some (c.serviceManager.allocated bsvc) := by
  rcases work_effect hs h with ⟨-, hnone⟩ |
    ⟨slice', svc', bsvc, s₁, hkey, hslice', hsvc', hnew, hcl, hpub⟩
  · exact absurd hsvc (hnone slice svc rfl hslice)
  · -- the key names the slice, so the worker handled this one
    obtain ⟨hns, hname⟩ : slice.ns.text = slice'.ns.text ∧ slice.name.text = slice'.name.text := by
      simpa using (splitSlash_sliceQueueKey slice).symm.trans hkey
    rw [← hns, ← hname, hslice] at hslice'
    obtain rfl := Option.some.inj hslice'
    obtain rfl := Option.some.inj (hsvc.symm.trans hsvc')
    exact ⟨bsvc, hnew, by rw [services_after_work hsvc hnew hcl hpub, if_pos rfl]⟩

/-- What a worker makes of the cluster when its handler returns. -/
def Cluster.handled (c : Cluster) (key : String) : Cluster :=
  match c.processNextWorkItem .calm key with
  | .ret c' => c'
  | .panic _ => c

theorem step_handled (hkey : key ∈ c.workqueue.items)
    (hret : (c.processNextWorkItem .calm key).Returned) :
    clusterSystem.step c (.work key .calm) (c.handled key) := by
  refine ⟨hkey, ?_⟩
  unfold Cluster.handled
  cases hproc : c.processNextWorkItem .calm key with
  | ret c' => rfl
  | panic p => rw [hproc] at hret; exact hret.elim

end EProxy
