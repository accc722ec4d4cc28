import EProxy.Manager.Steps

/-!
# The manager's own tables

The manager keeps `services` and `cacheSerivceId` beside the BPF maps. This file says
what the methods do to these two tables, over any handles (nil ones included), with any
of their map operations failing, and returned or not: map operations and the loops
around them touch neither (`SameBooks`), so all that is left are the few assignments of
the methods themselves (`deleteService_books`, `appendService_books`). A call that returns
thus does one of two things: it drops the entry of a key (`Dropped`), or it stores one with an
id from the allocation loop (`Renumbered`); `BookStep` says which call does what.

The store is keyed by `ServiceKey` (`services_keyed_by_serviceKey`). Four of the five
methods write under the key of the object they write. `OnUpdateEndpointSlice` stores
under the key it looked the service up with, name first: an entry found under that key
has it for its own key, and where there is none the object it builds has a nil `Ports`,
so that `AppendService` panics before anything is stored.
-/

namespace EProxy

open Framework

/-! ### What map operations leave alone -/

/-- The two worlds have the same services and the same marked ids. -/
structure SameBooks (w w' : World) : Prop where
  services : w'.mgr.services = w.mgr.services
  cache : w'.mgr.cacheSerivceId = w.mgr.cacheSerivceId

theorem SameBooks.refl (w : World) : SameBooks w w := ⟨rfl, rfl⟩

theorem SameBooks.trans {w₁ w₂ w₃ : World} (h : SameBooks w₁ w₂) (h' : SameBooks w₂ w₃) :
    SameBooks w₁ w₃ :=
  ⟨h'.services.trans h.services, h'.cache.trans h.cache⟩

theorem mapOp_sameBooks (env : Env) (op : MapOp) (w : World) :
    SameBooks w ((mapOp env op).run w).2 := by
  unfold mapOp
  by_cases hnil : op.nilHandle w.mgr.maps = true
  · simp only [hnil, if_true]
    exact .refl w
  · simp only [hnil, Bool.false_eq_true, if_false]
    exact ⟨rfl, rfl⟩

/-- The rule of sequencing. -/
theorem SameBooks.bind {α β : Type} {x : Mgr α} {f : α → Mgr β}
    (hx : ∀ w, SameBooks w (x.run w).2) (hf : ∀ a w, SameBooks w ((f a).run w).2) (w : World) :
    SameBooks w ((x >>= f).run w).2 :=
  Go.run_bind_trans (R := SameBooks) SameBooks.trans (hx w) fun a w' _ => hf a w'

/-- A map operation whose error ends the loop it is in, the rest of which leaves the
two tables alone. -/
theorem mapOp_bind_sameBooks (env : Env) (op : MapOp) {rest : Mgr (Option (IterError MapError))}
    (hrest : ∀ w, SameBooks w (rest.run w).2) (w : World) :
    SameBooks w ((mapOp env op >>= fun err => match err with
      | some err => pure (some (.other err))
      | none => rest).run w).2 := by
  refine SameBooks.bind (mapOp_sameBooks env op) (fun err w' => ?_) w
  cases err with
  | none => exact hrest w'
  | some e => exact .refl w'

theorem deleteEndpoints_sameBooks (env : Env) (svc : Service) (eps : List UInt32) :
    ∀ (index : ℕ) (w : World), SameBooks w ((deleteEndpoints env svc index eps).run w).2 := by
  induction eps with
  | nil => intro index w; exact .refl w
  | cons eip rest ih =>
    intro index w
    exact mapOp_bind_sameBooks env _ (ih (index + 1)) w

theorem deleteVisitor_sameBooks (env : Env) (svc : Service) (port : Ports) (w : World) :
    SameBooks w ((deleteVisitor env svc port).run w).2 := by
  unfold deleteVisitor
  refine SameBooks.bind SameBooks.refl (fun ip => ?_) w
  exact mapOp_bind_sameBooks env _ (deleteEndpoints_sameBooks env svc svc.endpoints 0)

theorem appendEndpoints_sameBooks (env : Env) (svc : Service) (port : Ports) (eps : List UInt32) :
    ∀ (index : ℕ) (w : World), SameBooks w ((appendEndpoints env svc port index eps).run w).2 := by
  induction eps with
  | nil => intro index w; exact .refl w
  | cons eip rest ih =>
    intro index
    unfold appendEndpoints
    refine SameBooks.bind SameBooks.refl fun w₁ w' => ?_
    -- the loop goes on only over a map that is there
    split
    · exact .refl w'
    · exact mapOp_bind_sameBooks env _ (ih (index + 1)) w'

theorem appendVisitor_sameBooks (env : Env) (svc : Service) (port : Ports) (w : World) :
    SameBooks w ((appendVisitor env svc port).run w).2 := by
  unfold appendVisitor
  refine SameBooks.bind SameBooks.refl (fun ip => ?_) w
  refine SameBooks.bind SameBooks.refl fun w₁ w' => ?_
  split
  · exact .refl w'
  · exact mapOp_bind_sameBooks env _ (appendEndpoints_sameBooks env svc port svc.endpoints 0) w'

/-- `Iter` leaves alone what its visitor does, whether it runs to its end, stops or
panics. -/
theorem iterFrom_sameBooks {visitor : Ports → Mgr (Option (IterError MapError))}
    (hv : ∀ port w, SameBooks w ((visitor port).run w).2) (items : List Ports) :
    ∀ (set : Typed Ports) (w : World),
      SameBooks w ((Typed.iterFrom visitor items set).run w).2 := by
  induction items with
  | nil => intro set w; exact .refl w
  | cons port rest ih =>
    intro set
    unfold Typed.iterFrom
    refine SameBooks.bind (hv port) fun res w' => ?_
    -- the four cases of what a visitor returns
    rcases res with _ | _ | _ | err
    · exact ih set w'
    · exact .refl w'
    · exact ih (set.discard port) w'
    · exact .refl w'

theorem iter_sameBooks {visitor : Ports → Mgr (Option (IterError MapError))}
    (hv : ∀ port w, SameBooks w ((visitor port).run w).2) (set : Typed Ports)
    (order : IterOrder Ports) (w : World) : SameBooks w ((set.iter order visitor).run w).2 :=
  iterFrom_sameBooks hv (order.visit set.items) set w

/-! ### What the two basic methods write -/

/-- What `DeleteService` of a key does to the two tables: the entry goes if the method
returns, nothing changes if it panics, and no id is unmarked. -/
structure Deletion (w : World) (key : String) (out : Outcome MapError (Option MapError) × World) :
    Prop where
  services : out.2.mgr.services =
    if out.1.Returned then w.mgr.services.erase key else w.mgr.services
  cache : out.2.mgr.cacheSerivceId = w.mgr.cacheSerivceId

theorem deleteService_books (env : Env) (key : String) (w : World) :
    Deletion w key ((deleteService env key).run w) := by
  cases h : w.mgr.services key with
  | none =>
    rw [deleteService_run_of_absent h]
    exact ⟨(Table.erase_of_absent h).symm, rfl⟩
  | some svc =>
    simp only [deleteService, Go.run_bind_ret (Go.run_get w), h]
    cases hset : svc.ports with
    | none => exact ⟨rfl, rfl⟩
    | some set =>
      have hiter := iter_sameBooks (deleteVisitor_sameBooks env svc) set env.deleteOrder w
      rcases hrun : (set.iter env.deleteOrder (deleteVisitor env svc)).run w with ⟨set' | p, w'⟩
      · rw [hrun] at hiter
        simp only [Go.run_bind_ret hrun]
        exact ⟨congrArg (Table.erase · key) hiter.services, hiter.cache⟩
      · rw [hrun] at hiter
        simp only [Go.run_bind_panic hrun]
        exact ⟨hiter.services, hiter.cache⟩

/-- What `AppendService` of an object does to the two tables: the allocation loop runs
in any case, and if the method returns the object is stored under its own key. -/
structure Appending (w : World) (svc : Service) (out : Outcome MapError Service × World) :
    Prop where
  cache : out.2.mgr.cacheSerivceId = (allocate w.mgr.cacheSerivceId svc).1
  returned : ∀ r, out.1 = .ret r → r.serviceKey = svc.serviceKey ∧
    r.serviceId = (allocate w.mgr.cacheSerivceId svc).2.serviceId ∧
    out.2.mgr.services = w.mgr.services.set svc.serviceKey r
  panicked : ∀ p, out.1 = .panic p → out.2.mgr.services = w.mgr.services

theorem appendService_books (env : Env) (svc : Service) (w : World) :
    Appending w svc ((appendService env svc).run w) := by
  rw [appendService_run_eq, publishService]
  -- the visitor works on the object with its new id
  generalize hobj : w.allocated svc = obj
  have hkey : obj.serviceKey = svc.serviceKey := hobj ▸ allocated_serviceKey w svc
  cases hset : obj.ports with
  | none => exact ⟨rfl, fun r hr => absurd hr (by simp [Go.panic]), fun p _ => rfl⟩
  | some set =>
    have hiter := iter_sameBooks (appendVisitor_sameBooks env obj) set env.appendOrder
      (w.afterAllocate svc)
    rcases hrun : (set.iter env.appendOrder (appendVisitor env obj)).run (w.afterAllocate svc)
      with ⟨set' | p, w'⟩
    · rw [hrun] at hiter
      simp only [Go.run_bind_ret hrun]
      change Appending w svc (.ret { obj with ports := some set' },
        w'.setService obj.serviceKey { obj with ports := some set' })
      refine ⟨hiter.cache, fun r hr => ?_, fun p hp => absurd hp (by simp)⟩
      obtain rfl := Outcome.ret.inj hr
      have hid : obj.serviceId = (allocate w.mgr.cacheSerivceId svc).2.serviceId :=
        congrArg Service.serviceId hobj.symm
      refine ⟨hkey, hid, ?_⟩
      rw [← hkey]
      exact congrArg (Table.set · obj.serviceKey _) hiter.services
    · rw [hrun] at hiter
      simp only [Go.run_bind_panic hrun]
      exact ⟨hiter.cache, fun r hr => absurd hr (by simp), fun _ _ => hiter.services⟩

/-! ### The store is keyed by `ServiceKey` -/

/-- Every entry is stored under the key of its service. -/
def Keyed (services : Table String Service) : Prop :=
  ∀ key svc, services key = some svc → svc.serviceKey = key

theorem keyed_empty : Keyed Table.empty := fun key svc h => absurd h (by simp)

theorem Keyed.erase {services : Table String Service} (h : Keyed services) (key : String) :
    Keyed (services.erase key) :=
  fun k svc hk => h k svc (Table.of_erase hk)

theorem Keyed.set {services : Table String Service} (h : Keyed services) {key : String}
    {svc : Service} (hkey : svc.serviceKey = key) : Keyed (services.set key svc) := by
  intro k x hk
  rw [Table.set_apply] at hk
  split at hk
  · next heq =>
    obtain rfl := Option.some.inj hk
    exact hkey.trans heq.symm
  · exact h k x hk

/-- The computation leads from keyed stores to keyed stores, returned or not. -/
def KeepsKeyed {α : Type} (x : Mgr α) (w : World) : Prop :=
  Keyed w.mgr.services → Keyed (x.run w).2.mgr.services

theorem KeepsKeyed.bind {α β : Type} {x : Mgr α} {f : α → Mgr β} {w : World}
    (hx : KeepsKeyed x w) (hf : ∀ a w', x.run w = (.ret a, w') → KeepsKeyed (f a) w') :
    KeepsKeyed (x >>= f) w :=
  Go.run_bind_trans (R := fun w w' : World => Keyed w.mgr.services → Keyed w'.mgr.services)
    (fun h h' hk => h' (h hk)) hx hf

theorem deleteService_keyed (env : Env) (key : String) (w : World) :
    KeepsKeyed (deleteService env key) w := by
  intro hk
  rw [(deleteService_books env key w).services]
  split
  · exact hk.erase key
  · exact hk

theorem appendService_keyed (env : Env) (svc : Service) (w : World) :
    KeepsKeyed (appendService env svc) w := by
  intro hk
  have hbooks := appendService_books env svc w
  cases hout : ((appendService env svc).run w).1 with
  | ret r =>
    obtain ⟨hkey, -, hservices⟩ := hbooks.returned r hout
    rw [hservices]
    exact hk.set hkey
  | panic p =>
    rw [hbooks.panicked p hout]
    exact hk

theorem updateService_keyed (env : Env) (svc : Service) (w : World) :
    KeepsKeyed (updateService env svc) w := by
  unfold KeepsKeyed
  cases h : w.mgr.services svc.serviceKey with
  | none =>
    rw [updateService_run_of_absent h]
    exact (appendService_keyed env svc w).bind fun _ _ _ => id
  | some old =>
    rw [updateService_run_of_live h]
    refine (deleteService_keyed env _ w).bind fun err w₁ _ => ?_
    exact (appendService_keyed env svc w₁).bind fun _ _ _ => id

/-- `OnUpdateEndpointSlice` stores under the key it looked up. Found there, the service
has that key; not found, the method does not get to storing it. -/
theorem onUpdateEndpointSlice_keyed (env : Env) (new : Api.EndpointSlice) (w : World) :
    KeepsKeyed (onUpdateEndpointSlice env new) w := by
  intro hk
  by_cases hlabels : new.labels = []
  · rw [onUpdateEndpointSlice, if_pos hlabels]
    exact hk
  cases h : w.mgr.services (sliceKey new) with
  | none =>
    rw [onUpdateEndpointSlice_run_of_absent hlabels h]
    refine KeepsKeyed.bind id (fun eps w₁ _ => ?_) hk
    refine (appendService_keyed env _ w₁).bind fun service' w₂ happ => ?_
    -- the new object has no ports, so the append did not return
    have hnil : (⟨new.serviceName.text, new.ns.text, 0, [], none, eps⟩ : Service).ports = none :=
      rfl
    obtain ⟨p, hpanic⟩ := appendService_panics env w₁ (Or.inl hnil)
    exact absurd (happ.symm.trans hpanic) (by simp)
  | some service =>
    rw [onUpdateEndpointSlice_run_of_live hlabels h]
    refine KeepsKeyed.bind id (fun eps w₁ _ => ?_) hk
    refine (deleteService_keyed env _ w₁).bind fun _ w₂ _ => ?_
    refine (appendService_keyed env _ w₂).bind fun service' w₃ happ hk₃ => ?_
    have hbooks := appendService_books env { service with endpoints := eps } w₂
    have hkey := (hbooks.returned service' (congrArg Prod.fst happ)).1
    exact hk₃.set (hkey.trans (hk _ service h))

theorem onDeleteEndpointSlice_keyed (env : Env) (slice : Api.EndpointSlice) (w : World) :
    KeepsKeyed (onDeleteEndpointSlice env slice) w := by
  unfold KeepsKeyed
  cases h : w.mgr.services (sliceKey slice) with
  | none =>
    rw [onDeleteEndpointSlice_run_of_absent h]
    exact id
  | some service =>
    rw [onDeleteEndpointSlice_run_of_live h]
    exact (deleteService_keyed env _ w).bind fun _ _ _ hk => hk.erase _

/-- **The step.** Whatever the call and however it ends. -/
theorem invoke_keyed {s : ServiceManager} (env : Env) (call : Call) (hk : Keyed s.services) :
    Keyed (s.invoke env call).2.mgr.services := by
  unfold ServiceManager.invoke
  cases call with
  | updateService svc =>
    simp only [Call.computation, Go.run_discard_snd]
    exact updateService_keyed env svc ⟨s, []⟩ hk
  | appendService svc =>
    simp only [Call.computation, Go.run_discard_snd]
    exact appendService_keyed env svc ⟨s, []⟩ hk
  | deleteService key =>
    simp only [Call.computation, Go.run_discard_snd]
    exact deleteService_keyed env key ⟨s, []⟩ hk
  | onUpdateEndpointSlice new => exact onUpdateEndpointSlice_keyed env new ⟨s, []⟩ hk
  | onDeleteEndpointSlice slice => exact onDeleteEndpointSlice_keyed env slice ⟨s, []⟩ hk

/-- **The run.** From a new manager over any maps, under any calls. -/
theorem keyed_of_run {maps : Maps} {allowed : Call → Prop} {s : ServiceManager}
    {tr : List (Transition ServiceManager Invocation)}
    (hrun : Run (managerSystem allowed) (newServiceManager maps) tr s) : Keyed s.services := by
  refine (hrun.invariant (I := fun s => Keyed s.services) keyed_empty ?_).1
  rintro a l b hk ⟨-, rfl⟩
  exact invoke_keyed l.env l.call hk

/-- **The store is keyed by `ServiceKey`.** In every state that calls of the five
methods lead to from a new manager, with panicking calls recovered, every entry is
stored under its own key. So the deletion inside `UpdateService` is of the entry that
was looked up: when it returns that entry is gone, and when it panics nothing is. -/
theorem services_keyed_by_serviceKey {maps : Maps} {s : ServiceManager}
    {tr : List (Transition ServiceManager Invocation)}
    (hrun : Run (managerSystem fun _ => True) (newServiceManager maps) tr s) :
    (∀ key svc, s.services key = some svc → svc.serviceKey = key) ∧
    ∀ (env : Env) (svc old : Service), s.services svc.serviceKey = some old →
      (s.invoke env (.deleteService old.serviceKey)).2.mgr.services =
        if (s.invoke env (.deleteService old.serviceKey)).1.Returned
        then s.services.erase svc.serviceKey else s.services := by
  have hk := keyed_of_run hrun
  refine ⟨hk, fun env svc old hold => ?_⟩
  rw [hk _ old hold]
  have hbooks := deleteService_books env svc.serviceKey ⟨s, []⟩
  have hret := Go.run_discard_returned_iff (deleteService env svc.serviceKey) ⟨s, []⟩
  unfold ServiceManager.invoke Call.computation
  simp only [Go.run_discard_snd, hret]
  exact hbooks.services

/-- A service with one port and one endpoint at a VIP of its own. -/
def plainService (name : String) (host : UInt8) : Service :=
  ⟨name, "default", 0, [10, 96, 0, host], some (Typed.new.add ⟨.tcp, 80, 8080⟩), [0x0100f40a]⟩

/-- The manager after its first service. -/
def afterFirst : ServiceManager :=
  ((newServiceManager Maps.empty).invoke .calm (.updateService (plainService "a" 1))).2.mgr

/-- Updating a service that has an endpoint panics inside the loop of `DeleteService`;
recovered, the store is keyed. -/
theorem keyed_after_panic :
    (afterFirst.invoke .calm (.updateService (plainService "a" 1))).1 =
      .panic (.logged .errKeyNotExist) ∧
    Keyed (afterFirst.invoke .calm (.updateService (plainService "a" 1))).2.mgr.services := by
  have hfirst : Run (managerSystem fun _ => True) (newServiceManager Maps.empty)
      ([] ++ [⟨newServiceManager Maps.empty, ⟨.updateService (plainService "a" 1), .calm⟩,
        afterFirst⟩]) afterFirst := .snoc (.nil _) ⟨trivial, rfl⟩
  have hrun := hfirst.snoc (l := ⟨.updateService (plainService "a" 1), .calm⟩) ⟨trivial, rfl⟩
  exact ⟨by decide, (services_keyed_by_serviceKey hrun).1⟩

/-! ### What a call that returns does to the two tables -/

section Returned

variable {env : Env} {w w' : World} {s s₁ s' : ServiceManager} {key : String} {svc : Service}

/-- The entry of the key is gone, and no id is unmarked. -/
structure Dropped (s : ServiceManager) (key : String) (s' : ServiceManager) : Prop where
  services : s'.services = s.services.erase key
  cache : s'.cacheSerivceId = s.cacheSerivceId

/-- The allocation loop has run for the object, and an entry with the id it gives is
stored under the key. -/
structure Renumbered (s : ServiceManager) (key : String) (obj : Service) (s' : ServiceManager) :
    Prop where
  cache : s'.cacheSerivceId = (allocate s.cacheSerivceId obj).1
  services : ∃ r, s'.services = s.services.set key r ∧
    r.serviceId = (allocate s.cacheSerivceId obj).2.serviceId

/-- Storing where an entry has just been dropped. -/
theorem Dropped.renumbered {obj : Service} (hdrop : Dropped s key s₁)
    (hnew : Renumbered s₁ key obj s') : Renumbered s key obj s' := by
  obtain ⟨r, hservices, hid⟩ := hnew.services
  refine ⟨by rw [hnew.cache, hdrop.cache], r, ?_, by rw [hid, hdrop.cache]⟩
  rw [hservices, hdrop.services, Table.erase_set]

theorem deleteService_dropped {r : Option MapError}
    (h : (deleteService env key).run w = (.ret r, w')) : Dropped w.mgr key w'.mgr := by
  have hbooks := deleteService_books env key w
  rw [h] at hbooks
  exact ⟨hbooks.services, hbooks.cache⟩

theorem appendService_renumbered {r : Service}
    (h : (appendService env svc).run w = (.ret r, w')) :
    Renumbered w.mgr svc.serviceKey svc w'.mgr := by
  have hbooks := appendService_books env svc w
  rw [h] at hbooks
  obtain ⟨-, hid, hservices⟩ := hbooks.returned r rfl
  exact ⟨hbooks.cache, r, hservices, hid⟩

theorem updateService_renumbered (hk : Keyed w.mgr.services) {r : Option MapError}
    (h : (updateService env svc).run w = (.ret r, w')) :
    Renumbered w.mgr svc.serviceKey svc w'.mgr := by
  obtain ⟨w₁, a, happ, ⟨-, rfl⟩ | ⟨old, err, hold, hdel⟩⟩ := updateService_eq_ret h
  · exact appendService_renumbered happ
  · rw [hk _ old hold] at hdel
    exact (deleteService_dropped hdel).renumbered (appendService_renumbered happ)

/-- A slice event renumbers the service it finds, under the key of the lookup. -/
theorem onUpdateEndpointSlice_renumbered (hk : Keyed w.mgr.services) {new : Api.EndpointSlice}
    (hlabels : new.labels ≠ []) (h : (onUpdateEndpointSlice env new).run w = (.ret (), w')) :
    ∃ service eps, w.mgr.services (sliceKey new) = some service ∧
      Renumbered w.mgr (sliceKey new) { service with endpoints := eps } w'.mgr := by
  obtain ⟨service, eps, err, w₁, service', w₂, hlive, -, hdel, happ, rfl⟩ :=
    onUpdateEndpointSlice_eq_ret hlabels h
  have hkey : service.serviceKey = sliceKey new := hk _ service hlive
  have hdrop : Dropped w.mgr (sliceKey new) w₁.mgr := hkey ▸ deleteService_dropped hdel
  -- the append stores under the key of the object, and the last assignment once more
  have hbooks := appendService_books env { service with endpoints := eps } w₁
  rw [happ] at hbooks
  obtain ⟨-, hid, hservices⟩ := hbooks.returned service' rfl
  rw [show ({ service with endpoints := eps } : Service).serviceKey = sliceKey new from hkey]
    at hservices
  refine ⟨service, eps, hlive, hdrop.renumbered ⟨hbooks.cache, service', ?_, hid⟩⟩
  calc (w₂.setService (sliceKey new) service').mgr.services
      = w₂.mgr.services.set (sliceKey new) service' := rfl
    _ = (w₁.mgr.services.set (sliceKey new) service').set (sliceKey new) service' :=
        congrArg (Table.set · (sliceKey new) service') hservices
    _ = w₁.mgr.services.set (sliceKey new) service' := Table.set_set ..

theorem onDeleteEndpointSlice_dropped (hk : Keyed w.mgr.services) {slice : Api.EndpointSlice}
    (h : (onDeleteEndpointSlice env slice).run w = (.ret (), w')) :
    Dropped w.mgr (sliceKey slice) w'.mgr := by
  rcases onDeleteEndpointSlice_eq_ret h with ⟨hnone, rfl⟩ | ⟨service, err, w₁, hlive, hdel, rfl⟩
  · exact ⟨(Table.erase_of_absent hnone).symm, rfl⟩
  · rw [hk _ service hlive] at hdel
    have hdrop := deleteService_dropped hdel
    -- the entry is gone before the method removes it itself
    have hgone : w₁.mgr.services (sliceKey slice) = none := by
      rw [hdrop.services, Table.erase_self]
    exact ⟨(Table.erase_of_absent hgone).trans hdrop.services, hdrop.cache⟩

/-- The methods of the manager that its callers use; `AppendService` is called by two of
them. -/
def Call.NotAppend : Call → Prop
  | .appendService _ => False
  | _ => True

/-- What a call that returns does to the two tables. -/
inductive BookStep (s s' : ServiceManager) : Call → Prop
  | updateService (svc : Service) : Renumbered s svc.serviceKey svc s' →
      BookStep s s' (.updateService svc)
  | deleteService (key : String) : Dropped s key s' → BookStep s s' (.deleteService key)
  | unlabelled (new : Api.EndpointSlice) : new.labels = [] → s' = s →
      BookStep s s' (.onUpdateEndpointSlice new)
  | onUpdateEndpointSlice (new : Api.EndpointSlice) (service : Service) (eps : List UInt32) :
      new.labels ≠ [] → s.services (sliceKey new) = some service →
      Renumbered s (sliceKey new) { service with endpoints := eps } s' →
      BookStep s s' (.onUpdateEndpointSlice new)
  | onDeleteEndpointSlice (slice : Api.EndpointSlice) : Dropped s (sliceKey slice) s' →
      BookStep s s' (.onDeleteEndpointSlice slice)

/-- **Everything a step can do** to the two tables of a keyed store. -/
theorem bookStep_of_step (hk : Keyed s.services) {l : Invocation}
    (h : (returningSystem Call.NotAppend).step s l s') : BookStep s s' l.call := by
  obtain ⟨hallowed, hout, rfl⟩ := h
  obtain ⟨call, env⟩ := l
  have hrun : s.invoke env call = (.ret (), (s.invoke env call).2) := Prod.ext hout rfl
  generalize (s.invoke env call).2 = w' at hrun
  cases call with
  | appendService svc => exact hallowed.elim
  | updateService svc =>
    obtain ⟨r, hupd⟩ := Go.run_bind_pure_eq_ret hrun
    exact .updateService svc (updateService_renumbered (w := ⟨s, []⟩) hk hupd)
  | deleteService key =>
    obtain ⟨r, hdel⟩ := Go.run_bind_pure_eq_ret hrun
    exact .deleteService key (deleteService_dropped (w := ⟨s, []⟩) hdel)
  | onDeleteEndpointSlice slice =>
    exact .onDeleteEndpointSlice slice (onDeleteEndpointSlice_dropped (w := ⟨s, []⟩) hk hrun)
  | onUpdateEndpointSlice new =>
    by_cases hlabels : new.labels = []
    · -- a slice without labels is not looked at
      have hsame : s.invoke env (.onUpdateEndpointSlice new) = (.ret (), ⟨s, []⟩) := by
        change (EProxy.onUpdateEndpointSlice env new).run ⟨s, []⟩ = _
        rw [EProxy.onUpdateEndpointSlice, if_pos hlabels]
        rfl
      obtain rfl : w' = ⟨s, []⟩ := congrArg Prod.snd (hrun.symm.trans hsame)
      exact .unlabelled new hlabels rfl
    · obtain ⟨service, eps, hlive, hnew⟩ :=
        onUpdateEndpointSlice_renumbered (w := ⟨s, []⟩) hk hlabels hrun
      exact .onUpdateEndpointSlice new service eps hlabels hlive hnew

end Returned

end EProxy
