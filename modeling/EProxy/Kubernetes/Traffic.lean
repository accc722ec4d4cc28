import EProxy.DataPath.Translate
import EProxy.Kubernetes.Dispatch
import EProxy.Kubernetes.Survival

/-!
# Who answers a connection

`connect4_of_publishes` is about the moment after a service was published. Here is what a
socket meets later, when other slices have been handled. All services have id `1`, so the
endpoints of all of them are written to the same positions of `backendMap`; and a removal
that returns erases none of them, since it can only be the one of a service without ports or
without endpoints. Position `j + 1` therefore holds endpoint `j` of the last published
service that has one (`Slots`).

`connect4_answered_by` follows: a socket that dials a live service with endpoints is always
redirected, and to the service that was published last among those with enough endpoints,
which need not be the one it dialled.
-/

namespace EProxy

open Framework Machine

/-! ### What a run has published -/

/-- `AppendService` returned for `svc`, and visited the port `last` last. -/
structure Publication where
  svc : Service
  last : Ports
  deriving DecidableEq

/-- What the publication writes for endpoint `j`. -/
def Publication.value (pub : Publication) (j : ℕ) : Option Endpoint4Value :=
  pub.svc.endpoints[j]?.map (backendValue · pub.last)

/-- What a step publishes. A service without ports is stored, but nothing is written. -/
def Cluster.publication (c : Cluster) : ClusterLabel → Option Publication
  | .event _ => none
  | .work key env =>
    match handlerCall key with
    | some (.endpointHandler ns name) =>
      match endpointCall c.serviceLister c.endpointsLister ns name with
      | .ret (.ok (.updateService svc)) =>
        (env.appendOrder.visit svc.portList).getLast?.map (Publication.mk svc)
      | _ => none
    | _ => none

/-- What a run has published, in order. -/
def publications (tr : List (Transition Cluster ClusterLabel)) : List Publication :=
  tr.filterMap fun t => t.pre.publication t.label

/-- The last value that was written for endpoint `j`. -/
def lastValue (pubs : List Publication) (j : ℕ) : Option Endpoint4Value :=
  pubs.reverse.findSome? (·.value j)

theorem publications_snoc (tr : List (Transition Cluster ClusterLabel))
    (t : Transition Cluster ClusterLabel) :
    publications (tr ++ [t]) = publications tr ++ (t.pre.publication t.label).toList := by
  rw [publications, publications, List.filterMap_append]
  cases h : t.pre.publication t.label with
  | none => simp [h]
  | some pub => simp [h]

theorem lastValue_append (pubs : List Publication) (pub : Option Publication) (j : ℕ) :
    lastValue (pubs ++ pub.toList) j = (pub.bind (·.value j)).or (lastValue pubs j) := by
  cases pub with
  | none => simp [lastValue]
  | some pub =>
    rw [lastValue, List.reverse_append, List.findSome?_append]
    simp [lastValue, List.findSome?_cons]
    cases pub.value j <;> rfl

/-- The value was written by the last publication with an endpoint in that place. -/
theorem exists_of_lastValue {pubs : List Publication} {j : ℕ} {v : Endpoint4Value}
    (h : lastValue pubs j = some v) :
    ∃ before pub after, pubs = before ++ pub :: after ∧ pub.value j = some v ∧
      ∀ later ∈ after, later.svc.endpoints.length ≤ j := by
  obtain ⟨after, pub, before, hsplit, hv, hnone⟩ := List.findSome?_eq_some_iff.mp h
  refine ⟨before.reverse, pub, after.reverse, ?_, hv, fun later hlater => ?_⟩
  · rw [← List.reverse_reverse pubs, hsplit]
    simp
  · have hlen := hnone later (List.mem_reverse.mp hlater)
    rw [Publication.value, Option.map_eq_none_iff, List.getElem?_eq_none_iff] at hlen
    exact hlen

/-- Something was written for an endpoint that a published service has. -/
theorem isSome_lastValue {pubs : List Publication} {pub : Publication} (hmem : pub ∈ pubs)
    {j : ℕ} (hj : j < pub.svc.endpoints.length) : (lastValue pubs j).isSome := by
  rw [lastValue, List.findSome?_isSome_iff]
  refine ⟨pub, List.mem_reverse.mpr hmem, ?_⟩
  rw [Publication.value, List.getElem?_eq_getElem hj]
  rfl

/-! ### Steps of the manager -/

section Manager

variable {s s' : ServiceManager} {env : Env} {key : String} {svc : Service} {order : List Ports}

/-- An update that returned, with the order in which the environment visits the ports. -/
theorem invoke_updateService_visits (hs : Sound s)
    (h : (s.invoke env (.updateService svc)).1 = .ret ()) :
    ∃ s₁, Cleared s svc.serviceKey s₁ ∧
      Publishes s₁ svc (env.appendOrder.visit svc.portList)
        (s.invoke env (.updateService svc)).2.mgr := by
  obtain ⟨r, hupd⟩ := Go.run_bind_pure_eq_ret (Prod.ext h rfl)
  obtain ⟨w₁, a, happ, ⟨hnone, rfl⟩ | ⟨old, err, hold, hdel⟩⟩ := updateService_eq_ret hupd
  · exact ⟨s, Or.inl ⟨hnone, rfl⟩, appendService_ret (w := ⟨s, []⟩) hs.nonNil happ⟩
  · rw [hs.keyed hold] at hdel
    have hcl := deleteService_ret (w := ⟨s, []⟩) hs.nonNil hdel
    exact ⟨w₁.mgr, hcl, appendService_ret (hcl.nonNil hs.nonNil) happ⟩

/-- A removal that ran through erased no backend. -/
theorem Removes.backend (h : Removes s key svc order s') (hz : ZeroFree s) (e : Endpoint4Key) :
    s'.maps.backend e = s.maps.backend e := by
  rw [h.maps, fold_backend_deleteScript, if_neg]
  rintro ⟨horder, i, hi, -⟩
  rcases h.idle hz with hports | heps
  · have hperm := h.perm
    rw [hports] at hperm
    exact horder hperm.eq_nil
  · rw [heps] at hi
    exact absurd hi (Nat.not_lt_zero i)

theorem Cleared.backend (h : Cleared s key s') (hz : ZeroFree s) (e : Endpoint4Key) :
    s'.maps.backend e = s.maps.backend e := by
  rcases h with ⟨-, rfl⟩ | ⟨svc, order, h⟩
  · rfl
  · exact h.backend hz e

/-- What a publication leaves in the positions of id `1`. -/
theorem Publishes.slot (h : Publishes s svc order s') (hm : s.maps.NonNil) (ho : OneId s)
    (hn : svc.endpoints.length ≤ 65535) {j : ℕ} (hj : j < 65535) :
    s'.maps.backend ⟨slot 1 (j + 1)⟩ =
      ((order.getLast?.map (Publication.mk svc)).bind (·.value j)).or
        (s.maps.backend ⟨slot 1 (j + 1)⟩) := by
  have hid : (s.allocated svc).serviceId = 1 := by
    rw [ServiceManager.allocated, ho.allocate_eq]
  have heps : (s.allocated svc).endpoints = svc.endpoints := allocated_endpoints ⟨s, []⟩ svc
  rw [h.maps]
  rcases List.eq_nil_or_concat order with rfl | ⟨init, last, rfl⟩
  · rfl
  · rw [List.concat_eq_append, List.getLast?_append, List.getLast?_singleton, Option.some_or,
      Option.map_some, Option.bind_some, Publication.value]
    by_cases hlt : j < svc.endpoints.length
    · have hback := fold_backend_appendScript (s.allocated svc) init last (by rw [heps]; omega) hm j
        (by rw [heps]; exact hlt)
      rw [hid] at hback
      simp only [hback, heps, List.getElem?_eq_getElem hlt]
      rfl
    · -- the service has no such endpoint, so what was there stays
      rw [List.getElem?_eq_none (Nat.le_of_not_lt hlt), fold_backend_appendScript_other]
      · rfl
      · intro i h₁ h₂ heq
        rw [heps] at h₂
        have hij := (slot_inj (by omega) (by omega) (Endpoint4Key.mk.inj heq)).2
        omega

end Manager

/-! ### Steps of the cluster -/

theorem handlerCall_eq_endpointHandler_iff {key ns name : String} :
    handlerCall key = some (.endpointHandler ns name) ↔
      splitSlash key = [endpointSliceType, ns, name] := by
  rw [handlerCall]
  constructor
  · intro h
    split at h
    · next typ a b hsplit =>
      split at h
      · exact absurd h (by simp)
      · split at h
        · next htyp =>
          obtain ⟨rfl, rfl⟩ := HandlerCall.endpointHandler.inj (Option.some.inj h)
          rw [hsplit, htyp]
        · exact absurd h (by simp)
    · exact absurd h (by simp)
  · intro h
    rw [h]
    rfl

section Cluster

variable {c c' : Cluster} {l : ClusterLabel}

/-- **What a step does, and what it publishes.** It leaves the manager alone, or clears a
key, and then publishes nothing; or it clears a key and publishes. -/
theorem publication_cases (h : Steady c) (hstep : clusterSystem.step c l c') :
    (c.publication l = none ∧ (c'.serviceManager = c.serviceManager ∨
      ∃ key, Cleared c.serviceManager key c'.serviceManager)) ∨
    ∃ svc order s₁, c.publication l = order.getLast?.map (Publication.mk svc) ∧
      svc.endpoints.length ≤ 65535 ∧ Cleared c.serviceManager svc.serviceKey s₁ ∧
      Publishes s₁ svc order c'.serviceManager := by
  cases l with
  | event e =>
    obtain rfl : c' = c.deliver e := hstep
    exact Or.inl ⟨rfl, Or.inl rfl⟩
  | work key env =>
    rcases (work_cases hstep).2.2 with ⟨hsame, herr⟩ | ⟨ns, name, call, hkey, hcall, -, hret, hmgr⟩
    · refine Or.inl ⟨?_, Or.inl hsame⟩
      cases hhandler : handlerCall key with
      | none => simp only [Cluster.publication, hhandler]
      | some hc =>
        cases hc with
        | serviceHandler name ns => simp only [Cluster.publication, hhandler]
        | endpointHandler ns name =>
          obtain ⟨e, he⟩ := herr ns name (handlerCall_eq_endpointHandler_iff.mp hhandler)
          simp only [Cluster.publication, hhandler, he]
    · have hhandler := handlerCall_eq_endpointHandler_iff.mpr hkey
      obtain ⟨slice, svc, bsvc, hslice, -, hnew, hc⟩ := endpointCall_eq_ok_iff.mp hcall
      simp only [Cluster.publication, hhandler, hcall]
      cases hterm : slice.terminating with
      | true =>
        rw [hterm, if_pos rfl] at hc
        subst hc
        exact Or.inl ⟨rfl, Or.inr ⟨_, hmgr ▸ invoke_deleteService_ret h.sound hret⟩⟩
      | false =>
        rw [hterm] at hc
        obtain rfl : call = .updateService bsvc := hc
        obtain ⟨s₁, hcl, hpub⟩ := invoke_updateService_visits h.sound hret
        obtain ⟨-, -, rfl⟩ := (newService_eq_ret_iff svc slice bsvc).mp hnew
        exact Or.inr ⟨_, _, s₁, rfl, h.fits hslice, hcl, hmgr ▸ hpub⟩

/-- The positions of id `1` after the publications `pubs`: each holds what was written
there last, and every live service with a port is one of those published. -/
structure Slots (pubs : List Publication) (c : Cluster) : Prop where
  backend : ∀ j < 65535, c.serviceManager.maps.backend ⟨slot 1 (j + 1)⟩ = lastValue pubs j
  live : ∀ {k svc}, c.serviceManager.services k = some svc → svc.portList ≠ [] →
    ∃ pub ∈ pubs, pub.svc.endpoints = svc.endpoints
  fits : ∀ pub ∈ pubs, pub.svc.endpoints.length ≤ 65535

theorem slots_init : Slots [] clusterSystem.init where
  backend := fun _ _ => rfl
  live := fun h => absurd h (by simp [clusterSystem, newServiceManager])
  fits := fun _ hpub => absurd hpub List.not_mem_nil

theorem Slots.step {pubs : List Publication} (h : Slots pubs c) (hst : Steady c)
    (ho : OneId c.serviceManager) (hstep : clusterSystem.step c l c') :
    Slots (pubs ++ (c.publication l).toList) c' := by
  rcases publication_cases hst hstep with ⟨hpub, hmgr⟩ | ⟨svc, order, s₁, hpub, hn, hcl, hpubl⟩
  · -- nothing is written, and what is live was live
    rw [hpub, Option.toList_none, List.append_nil]
    rcases hmgr with hsame | ⟨key, hcl⟩
    · refine ⟨fun j hj => ?_, fun hk hports => ?_, h.fits⟩
      · rw [hsame]
        exact h.backend j hj
      · rw [hsame] at hk
        exact h.live hk hports
    · refine ⟨fun j hj => ?_, fun hk hports => ?_, h.fits⟩
      · rw [hcl.backend hst.zeroFree]
        exact h.backend j hj
      · rw [hcl.services_apply] at hk
        split at hk
        · exact absurd hk (by simp)
        · exact h.live hk hports
  · refine ⟨fun j hj => ?_, fun {k live} hk hports => ?_, fun pub hmem => ?_⟩
    · rw [lastValue_append, hpub, hpubl.slot (hcl.nonNil hst.sound.nonNil) (hcl.oneId ho) hn hj,
        hcl.backend hst.zeroFree, h.backend j hj]
    · rw [hpubl.services_apply] at hk
      split at hk
      · -- the service that was published
        obtain rfl := Option.some.inj hk
        rw [show (s₁.allocated svc).portList = svc.portList from
          allocated_portList ⟨s₁, []⟩ svc] at hports
        obtain ⟨init, last, rfl⟩ := hpubl.exists_last hports
        refine ⟨⟨svc, last⟩, List.mem_append_right _ ?_, (allocated_endpoints ⟨s₁, []⟩ svc).symm⟩
        rw [hpub]
        simp
      · rw [hcl.services_apply] at hk
        split at hk
        · exact absurd hk (by simp)
        · obtain ⟨pub, hmem, heq⟩ := h.live hk hports
          exact ⟨pub, List.mem_append_left _ hmem, heq⟩
    · rcases List.mem_append.mp hmem with hmem | hmem
      · exact h.fits pub hmem
      · rw [hpub, Option.mem_toList, Option.map_eq_some_iff] at hmem
        obtain ⟨last, -, rfl⟩ := hmem
        exact hn

/-- The ids of a manager in the cluster are all `1`. -/
theorem oneId_of_cluster_run {tr : List (Transition Cluster ClusterLabel)}
    (hrun : Run clusterSystem clusterSystem.init tr c) : OneId c.serviceManager :=
  ((manager_reachable ⟨tr, hrun⟩).invariant ⟨keyed_empty, oneId_init _⟩
    fun _ _ _ hI hst => fresh_step_invariant hI hst).2

theorem slots_of_run {tr : List (Transition Cluster ClusterLabel)}
    (hrun : Run clusterSystem clusterSystem.init tr c) (hfits : ∀ t ∈ tr, t.label.Fits)
    (hwa : ∀ t ∈ tr, WellAddressed t.post.serviceManager) : Slots (publications tr) c := by
  -- along the run, with `Steady` and `OneId` at each state it passes
  induction hrun with
  | nil => exact slots_init
  | @snoc s₁ s₂ tr₀ l hrun hst ih =>
    have hfits₀ : ∀ t ∈ tr₀, t.label.Fits := fun t ht => hfits t (List.mem_append_left _ ht)
    have hwa₀ : ∀ t ∈ tr₀, WellAddressed t.post.serviceManager :=
      fun t ht => hwa t (List.mem_append_left _ ht)
    rw [publications_snoc]
    exact (ih hfits₀ hwa₀).step (steady_of_run hrun hfits₀ hwa₀) (oneId_of_cluster_run hrun) hst

end Cluster

/-- **Who answers.** At the end of every run of informer events and workers, over slices with
at most 65535 ready addresses and with the live services well addressed in every state, and
for every socket that dials a port of a live service with `n` endpoints: without endpoints the
socket is left alone. With endpoints it is redirected, to endpoint `r mod n` of the service
that was published last among those with more than `r mod n` endpoints, at the target port of
the port that was visited last when that service was published. -/
theorem connect4_answered_by {c : Cluster} {tr : List (Transition Cluster ClusterLabel)}
    (hrun : Run clusterSystem clusterSystem.init tr c) (hfits : ∀ t ∈ tr, t.label.Fits)
    (hwa : ∀ t ∈ tr, WellAddressed t.post.serviceManager)
    {key : String} {svc : Service} {p : Ports}
    (hlive : c.serviceManager.services key = some svc) (hp : p ∈ svc.portList)
    {ctx : BpfSockAddr} (hdial : Dials ctx svc p) (r : UInt32) :
    (svc.endpoints = [] → c.serviceManager.maps.connect4 r ctx = (.noEndpoints, ctx)) ∧
    (svc.endpoints ≠ [] → ∃ before pub after eip,
      publications tr = before ++ pub :: after ∧
      pub.svc.endpoints[r.toNat % svc.endpoints.length]? = some eip ∧
      (∀ later ∈ after, later.svc.endpoints.length ≤ r.toNat % svc.endpoints.length) ∧
      c.serviceManager.maps.connect4 r ctx = (.translated,
        { ctx with userIp4 := eip, userPort := (htons pub.last.targetPort).toUInt32 })) := by
  have hst := steady_of_run hrun hfits hwa
  have hslots := slots_of_run hrun hfits hwa
  have hkey := hdial.frontendKey (hst.wellAddressed.protocols hlive p hp)
  have hfront : c.serviceManager.maps.frontend ctx.frontendKey = some svc.frontendValue := by
    rw [hkey]
    exact hst.mirrors.frontend hlive hp
  rw [connect4_eq _ _ _ hdial.type, hfront]
  constructor
  · intro hnil
    simp [Service.frontendValue, hnil]
  · intro hne
    -- the service itself was published, so something was written in every place it counts
    obtain ⟨own, hown, heps⟩ := hslots.live hlive (List.ne_nil_of_mem hp)
    have hn₁ : 1 ≤ svc.endpoints.length := List.length_pos_iff.mpr hne
    have hn₂ : svc.endpoints.length ≤ 65535 := heps ▸ hslots.fits own hown
    have hlt : r.toNat % svc.endpoints.length < svc.endpoints.length := Nat.mod_lt _ hn₁
    have hown' : r.toNat % svc.endpoints.length < own.svc.endpoints.length := by
      rw [heps]
      exact hlt
    obtain ⟨v, hv⟩ := Option.isSome_iff_exists.mp (isSome_lastValue hown hown')
    obtain ⟨before, pub, after, hsplit, hvalue, hafter⟩ := exists_of_lastValue hv
    obtain ⟨eip, heip, rfl⟩ := Option.map_eq_some_iff.mp hvalue
    refine ⟨before, pub, after, eip, hsplit, heip, hafter, ?_⟩
    have hback := (hslots.backend _ (by omega)).trans hv
    have hid := (oneId_of_cluster_run hrun).ids key svc hlive
    have hcount := count_ne_zero hn₁ hn₂
    simp only [Service.frontendValue, hid, if_neg hcount, backendIndex_toNat r hcount,
      toNat_count hn₂, hback, backendValue, littleEndianPort_eq_htons]

/-- A second service, with a target port of its own. -/
def mailObject : Api.Service :=
  { webObject with
    name := ⟨"mail", by decide⟩
    clusterIP := "10.96.0.30"
    ports := [⟨"smtp", .tcp, 25, .int 2525⟩] }

/-- Its slice, with one ready address. -/
def mailSlice : Api.EndpointSlice :=
  { webSlice ⟨"mail-a", by decide⟩ "10.244.0.9" with
    labels := [(Api.labelServiceName, ⟨"mail", by decide⟩)] }

/-- What `NewService` makes of the two. -/
def mailService : Service :=
  ⟨"mail", "default", 0, [10, 96, 0, 30], some (Typed.new.add ⟨.tcp, 25, 2525⟩), [0x0900f40a]⟩

/-- The web service is published and the informers have heard of the second one. -/
def mailAnnounced : Cluster :=
  (published.deliver (.service (.set mailObject))).deliver (.endpointSlice (.set mailSlice))

def bothPublished : Cluster := mailAnnounced.handled "EndpointSlice/default/mail-a"

/-- How both services get published, one after the other. -/
def publishingBoth : List (Transition Cluster ClusterLabel) :=
  publishing ++ [⟨published, .event (.service (.set mailObject)),
      published.deliver (.service (.set mailObject))⟩] ++
    [⟨published.deliver (.service (.set mailObject)), .event (.endpointSlice (.set mailSlice)),
      mailAnnounced⟩] ++
    [⟨mailAnnounced, .work "EndpointSlice/default/mail-a" .calm, bothPublished⟩]

theorem run_publishingBoth :
    Run clusterSystem clusterSystem.init publishingBoth bothPublished :=
  .snoc (.snoc (.snoc run_publishing rfl) rfl) (step_handled (by decide) (by decide))

theorem live_bothPublished {k : String} {svc : Service}
    (h : bothPublished.serviceManager.services k = some svc) :
    (k = "default/mail" ∧ svc = { mailService with serviceId := 1 }) ∨
      (k = "default/web" ∧ svc = { webService with serviceId := 1 }) := by
  have hset : bothPublished.serviceManager.services =
      (Table.empty.set "default/web" { webService with serviceId := 1 }).set "default/mail"
        { mailService with serviceId := 1 } := rfl
  rw [hset, Table.set_apply, Table.set_apply] at h
  split at h
  · next hk => exact Or.inl ⟨hk, (Option.some.inj h).symm⟩
  · split at h
    · next hk => exact Or.inr ⟨hk, (Option.some.inj h).symm⟩
    · exact absurd h (by simp)

theorem wellAddressed_bothPublished : WellAddressed bothPublished.serviceManager := by
  refine ⟨fun h => ?_, fun h h' hne => ?_, fun h => ?_, fun h => ?_⟩
  · rcases live_bothPublished h with ⟨-, rfl⟩ | ⟨-, rfl⟩ <;> rfl
  · rcases live_bothPublished h with ⟨rfl, rfl⟩ | ⟨rfl, rfl⟩ <;>
      rcases live_bothPublished h' with ⟨rfl, rfl⟩ | ⟨rfl, rfl⟩
    · exact absurd rfl hne
    · decide
    · decide
    · exact absurd rfl hne
  · rcases live_bothPublished h with ⟨-, rfl⟩ | ⟨-, rfl⟩ <;> decide
  · rcases live_bothPublished h with ⟨-, rfl⟩ | ⟨-, rfl⟩ <;> decide

/-- A socket that connects to the port of the web service. -/
def webSocket : BpfSockAddr := ⟨0x0a00600a, (htons 80).toUInt32, sockStream, 6⟩

/-- What holds of the first publication and of the three steps after it. -/
theorem forall_publishingBoth {P : Transition Cluster ClusterLabel → Prop}
    (h : ∀ t ∈ publishing, P t)
    (hsvc : P ⟨published, .event (.service (.set mailObject)),
      published.deliver (.service (.set mailObject))⟩)
    (hslice : P ⟨published.deliver (.service (.set mailObject)),
      .event (.endpointSlice (.set mailSlice)), mailAnnounced⟩)
    (hwork : P ⟨mailAnnounced, .work "EndpointSlice/default/mail-a" .calm, bothPublished⟩) :
    ∀ t ∈ publishingBoth, P t := by
  intro t ht
  simp only [publishingBoth, List.append_assoc, List.mem_append, List.mem_singleton] at ht
  rcases ht with ht | rfl | rfl | rfl
  · exact h t ht
  · exact hsvc
  · exact hslice
  · exact hwork

theorem fits_publishingBoth : ∀ t ∈ publishingBoth, t.label.Fits :=
  forall_publishingBoth fits_publishing trivial
    (by decide : mailSlice.readyAddresses.length ≤ 65535) trivial

theorem wellAddressed_publishingBoth :
    ∀ t ∈ publishingBoth, WellAddressed t.post.serviceManager := by
  have hpublished : WellAddressed published.serviceManager :=
    wellAddressed_publishing ⟨serviceHandled, .work "EndpointSlice/default/web-a" .calm, published⟩
      (by simp [publishing])
  exact forall_publishingBoth wellAddressed_publishing hpublished hpublished
    wellAddressed_bothPublished

theorem publications_publishingBoth : publications publishingBoth =
    [⟨webService, ⟨.tcp, 80, 8080⟩⟩, ⟨mailService, ⟨.tcp, 25, 2525⟩⟩] := by decide

/-- **The second service answers for the first.** With the web service and then the mail
service published, a socket that dials the web service on port 80 is redirected to the
endpoint of the mail service, at port 2525. -/
theorem connect4_answered_by_mail :
    bothPublished.serviceManager.maps.connect4 7 webSocket = (.translated,
      { webSocket with userIp4 := 0x0900f40a, userPort := (htons 2525).toUInt32 }) := by
  have hlive : bothPublished.serviceManager.services "default/web" =
      some { webService with serviceId := 1 } := by decide
  have hdial : Dials webSocket { webService with serviceId := 1 } ⟨.tcp, 80, 8080⟩ :=
    ⟨Or.inl rfl, by decide, rfl, rfl⟩
  obtain ⟨before, pub, after, eip, hsplit, heip, hafter, hconn⟩ :=
    (connect4_answered_by run_publishingBoth fits_publishingBoth wellAddressed_publishingBoth
      hlive (by decide) hdial 7).2 (by decide)
  rw [hconn]
  rw [publications_publishingBoth] at hsplit
  -- the mail service has an endpoint in place `0`, so nothing can come before it
  match before, hsplit with
  | [], hsplit =>
    obtain ⟨rfl, rfl⟩ := List.cons.inj hsplit
    exact absurd (hafter _ (List.mem_singleton.mpr rfl)) (by decide)
  | [_], hsplit =>
    obtain ⟨-, hsplit⟩ := List.cons.inj hsplit
    obtain ⟨rfl, rfl⟩ := List.cons.inj hsplit
    rw [← Option.some.inj (show some (0x0900f40a : UInt32) = some eip from heip)]
  | _ :: _ :: _, hsplit => exact absurd (congrArg List.length hsplit) (by simp)

end EProxy
