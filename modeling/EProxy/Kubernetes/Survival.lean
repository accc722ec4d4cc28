import EProxy.Kubernetes.Convergence
import EProxy.Manager.Atomic
import EProxy.Manager.ClusterIP

/-!
# When the process survives a key

A handler that panics takes the process down with it, so which keys can be handled is a
question about the whole program: the slice must be one `NewService` accepts, what the
manager holds for its service must be something `DeleteService` can remove, and the cluster
IP must be one that `AppendService` can encode. `handling_returned_iff` puts these together
for one handling in one state.

Along a run `DeleteService` finds every frontend it asks for (`Mirrors`) and never finds
position `0` of a service (`ZeroFree`), so what can be removed is exactly what has no port or
no endpoint. `handling_survives_iff` is the result for whole runs: a service that has once
been published with a port and a ready address is the end of the process as soon as one of
its slices is handled again, for an update as well as for a deletion.
-/

namespace EProxy

open Framework Machine

/-! ### When a call returns -/

section Calls

variable {s : ServiceManager} {env : Env} {key : String} {svc : Service}

/-- `DeleteService` of the key runs through, by `n` map operations. -/
def ServiceManager.Clears (s : ServiceManager) (env : Env) (key : String) (n : ℕ) : Prop :=
  match s.services key with
  | none => n = 0
  | some old => CanDelete s.maps env 0 old ∧ n = old.opCount

theorem clears_of_absent {n : ℕ} (h : s.services key = none) : s.Clears env key n ↔ n = 0 := by
  rw [ServiceManager.Clears, h]

theorem clears_of_live {old : Service} {n : ℕ} (h : s.services key = some old) :
    s.Clears env key n ↔ CanDelete s.maps env 0 old ∧ n = old.opCount := by
  rw [ServiceManager.Clears, h]

/-- With `n` operations behind it, `AppendService` of the object runs through. -/
structure CanAppend (env : Env) (n : ℕ) (svc : Service) : Prop where
  ports : svc.ports.isSome
  addressable : svc.Addressable
  spares : Spares env.fault n svc.opCount

private theorem clean_start (s : ServiceManager) : (⟨s, []⟩ : World).Clean :=
  fun _ hev => absurd hev List.not_mem_nil

theorem deleteService_returned_iff_clears (hm : s.maps.NonNil) :
    (s.invoke env (.deleteService key)).1.Returned ↔ ∃ n, s.Clears env key n := by
  change ((deleteService env key).discard.run ⟨s, []⟩).1.Returned ↔ _
  rw [Go.run_discard_returned_iff]
  rcases @deleteService_outcome ⟨s, []⟩ env hm (clean_start s) key with
    ⟨hnone, hrun⟩ | ⟨d, w', hlive, hcan, hrun, -⟩ | ⟨d, p, w', hlive, hcan, hrun, -⟩
  · rw [hrun]
    exact iff_of_true trivial ⟨0, (clears_of_absent hnone).mpr rfl⟩
  · rw [hrun]
    exact iff_of_true trivial ⟨_, (clears_of_live hlive).mpr ⟨hcan, rfl⟩⟩
  · rw [hrun]
    exact iff_of_false id fun ⟨n, hn⟩ => hcan ((clears_of_live hlive).mp hn).1

theorem appendService_returned_iff_canAppend {w : World} (hm : w.mgr.maps.NonNil) :
    ((appendService env svc).run w).1.Returned ↔ CanAppend env w.journal.length svc := by
  cases hset : svc.ports with
  | none =>
    obtain ⟨p, hrun⟩ := appendService_panics env w (Or.inl hset)
    rw [hrun]
    refine iff_of_false id fun hcan => ?_
    have hports := hcan.ports
    rw [hset] at hports
    exact absurd hports (by simp)
  | some set =>
    have hperm : (env.appendOrder.visit set.items).Perm (w.allocated svc).portList := by
      rw [allocated_portList]
      exact visit_perm_portList env.appendOrder hset
    rw [appendService_returned_iff hset, appendScriptOn_of_nonNil hm, length_appendScript hperm,
      allocated_opCount]
    exact ⟨fun ⟨haddr, hsp⟩ => ⟨by rw [hset]; rfl, haddr, hsp⟩,
      fun hcan => ⟨hcan.addressable, hcan.spares⟩⟩

/-- **When an update returns**: what is live under the key can be removed, and the new object
appended after it. -/
theorem updateService_returned_iff (hs : Sound s) :
    (s.invoke env (.updateService svc)).1.Returned ↔
      ∃ n, s.Clears env svc.serviceKey n ∧ CanAppend env n svc := by
  change ((updateService env svc).discard.run ⟨s, []⟩).1.Returned ↔ _
  rw [Go.run_discard_returned_iff]
  cases hlive : s.services svc.serviceKey with
  | none =>
    rw [updateService_run_of_absent hlive, Go.run_bind_pure_returned_iff,
      appendService_returned_iff_canAppend hs.nonNil]
    simp only [clears_of_absent hlive, exists_eq_left]
    exact Iff.rfl
  | some old =>
    rw [updateService_run_of_live hlive, hs.keyed hlive]
    simp only [clears_of_live hlive]
    rcases @deleteService_outcome ⟨s, []⟩ env hs.nonNil (clean_start s) svc.serviceKey with
      ⟨hnone, -⟩ | ⟨d, w', hd, hcan, hrun, -, -, -, hm, hlen⟩ | ⟨d, p, w', hd, hcan, hrun, -⟩
    · exact absurd (hlive.symm.trans hnone) (by simp)
    · -- the append starts behind the operations of the deletion
      obtain rfl : old = d := Option.some.inj (hlive.symm.trans hd)
      have hcount : w'.journal.length = old.opCount := by
        rw [hlen]
        exact Nat.zero_add _
      rw [Go.run_bind_ret hrun, Go.run_bind_pure_returned_iff,
        appendService_returned_iff_canAppend hm, hcount]
      exact ⟨fun happend => ⟨_, ⟨hcan, rfl⟩, happend⟩, fun ⟨n, ⟨_, hn⟩, happend⟩ => hn ▸ happend⟩
    · obtain rfl : old = d := Option.some.inj (hlive.symm.trans hd)
      rw [Go.run_bind_panic hrun]
      exact iff_of_false id fun ⟨n, hn, _⟩ => hcan hn.1

end Calls

/-! ### When a handling returns -/

/-- `NewService` accepts the slice: every `Ready` is set, and every address of a ready endpoint
is IPv4. -/
structure Extractable (slice : Api.EndpointSlice) : Prop where
  ready : ∀ endpoint ∈ slice.endpoints, endpoint.ready.isSome
  ipv4 : ReadyIPv4 slice.endpoints

section Handling

variable {c : Cluster} {slice : Api.EndpointSlice} {svc : Api.Service} {env : Env}

/-- A worker survives what its handler survives. -/
theorem processNextWorkItem_returned_iff (c : Cluster) (env : Env) (key : String) :
    (c.processNextWorkItem env key).Returned ↔
      ((handler c.serviceLister c.endpointsLister env key).run ⟨c.serviceManager, []⟩).1.Returned
      := by
  unfold Cluster.processNextWorkItem
  rcases (handler c.serviceLister c.endpointsLister env key).run ⟨c.serviceManager, []⟩ with
    ⟨(_ | e) | p, w⟩ <;> rfl

theorem newService_returned_iff (svc : Api.Service) (slice : Api.EndpointSlice) :
    Extractable slice ↔
      (newService svc slice : Outcome MapError Service) = .ret (serviceOf svc slice) := by
  rw [newService_eq_ret_iff]
  constructor
  · intro h
    exact ⟨h.ready, h.ipv4, rfl⟩
  · intro h
    exact ⟨h.1, h.2.1⟩

/-- **When the handling of a slice returns.** The slice and its service being in the listers:
`NewService` accepts the slice, what is held under its label can be removed, and unless the
slice is terminating the object made of the two can be appended after that. -/
theorem handling_returned_iff (hs : Sound c.serviceManager)
    (hslice : c.endpointsLister.get slice.ns.text slice.name.text = some slice)
    (hsvc : c.serviceLister.get slice.ns.text slice.serviceName.text = some svc) :
    (c.processNextWorkItem env (sliceQueueKey slice)).Returned ↔
      Extractable slice ∧ ∃ n, c.serviceManager.Clears env slice.labelKey n ∧
        (slice.terminating = false → CanAppend env n (serviceOf svc slice)) := by
  rw [processNextWorkItem_returned_iff, handler_sliceQueueKey, endpointHandler_run]
  by_cases hext : Extractable slice
  · -- the handler makes one call, and returns if the call does
    have hnew := (newService_returned_iff svc slice).mp hext
    have hkey : (serviceOf svc slice).serviceKey = slice.labelKey :=
      newService_serviceKey hsvc hnew
    have hcall : endpointCall c.serviceLister c.endpointsLister slice.ns.text slice.name.text =
        .ret (.ok (if slice.terminating then .deleteService slice.labelKey
          else .updateService (serviceOf svc slice))) :=
      endpointCall_eq_ok_iff.mpr ⟨slice, svc, _, hslice, hsvc, hnew, by rw [hkey]⟩
    rw [hcall]
    simp only [hext, true_and]
    rw [Go.run_bind_pure_returned_iff]
    cases hterm : slice.terminating with
    | true =>
      simp only [if_true, Bool.true_eq_false, false_imp_iff, and_true]
      exact deleteService_returned_iff_clears hs.nonNil
    | false =>
      simp only [Bool.false_eq_true, if_false, true_imp_iff]
      rw [← hkey]
      exact updateService_returned_iff hs
  · -- no object is made of the two, so no call
    refine iff_of_false ?_ fun h => hext h.1
    have hpanic : ∃ p, (newService svc slice : Outcome MapError Service) = .panic p := by
      cases hnew : (newService svc slice : Outcome MapError Service) with
      | panic p => exact ⟨p, rfl⟩
      | ret bsvc =>
        obtain ⟨hready, hipv4, -⟩ := (newService_eq_ret_iff svc slice bsvc).mp hnew
        exact absurd ⟨hready, hipv4⟩ hext
    obtain ⟨p, hp⟩ := hpanic
    have hcall : endpointCall c.serviceLister c.endpointsLister slice.ns.text slice.name.text =
        .panic p := by
      simp only [endpointCall, hslice, hsvc, hp, Outcome.panic_bind]
    rw [hcall]
    exact id

end Handling

/-! ### Runs -/

/-- An event brings in no slice with more than 65535 ready addresses. -/
def ClusterLabel.Fits : ClusterLabel → Prop
  | .event (.endpointSlice (.set slice)) => slice.readyAddresses.length ≤ 65535
  | _ => True

/-- What holds along runs over slices that fit, as long as the live services are well
addressed. -/
structure Steady (c : Cluster) : Prop where
  sound : Sound c.serviceManager
  wellAddressed : WellAddressed c.serviceManager
  mirrors : Mirrors c.serviceManager
  zeroFree : ZeroFree c.serviceManager
  fits : ∀ {k slice}, c.endpointsLister.objects k = some slice →
    slice.readyAddresses.length ≤ 65535

theorem steady_init : Steady clusterSystem.init where
  sound := sound_init
  wellAddressed := wellAddressed_init
  mirrors := mirrors_init
  zeroFree := fun _ => rfl
  fits := fun h => absurd h (by simp [clusterSystem, Store.empty])

section Steps

variable {c c' : Cluster}

/-- A slice in the lister is one that was there or one that the event brings in. -/
theorem fits_deliver (h : Steady c) {e : StoreEvent} (hfits : (ClusterLabel.event e).Fits)
    {k : String} {slice : Api.EndpointSlice}
    (hk : (c.deliver e).endpointsLister.objects k = some slice) :
    slice.readyAddresses.length ≤ 65535 := by
  cases e with
  | service d => exact h.fits hk
  | endpointSlice d =>
    cases d with
    | set o =>
      have hput : (c.endpointsLister.put o).objects k = some slice := hk
      rw [Store.put_apply] at hput
      split at hput
      · rw [← Option.some.inj hput]
        exact hfits
      · exact h.fits hput
    | deleted o => exact h.fits (Table.of_erase hk)
    | deletedFinalStateUnknown key => exact h.fits (Table.of_erase hk)

/-- A worker publishes what is made of slices that fit. -/
theorem zeroFree_work (h : Steady c) {key : String} {env : Env}
    (hstep : clusterSystem.step c (.work key env) c') : ZeroFree c'.serviceManager := by
  rcases work_effect h.sound hstep with ⟨hsame, -⟩ |
    ⟨slice, svc, bsvc, s₁, -, hslice, -, hnew, hcl, hpub⟩
  · rw [hsame]
    exact h.zeroFree
  · obtain ⟨-, -, rfl⟩ := (newService_eq_ret_iff svc slice bsvc).mp hnew
    have hz := hcl.zeroFree h.zeroFree
    split at hpub
    · rw [hpub]
      exact hz
    · obtain ⟨order, hpub⟩ := hpub
      exact hpub.zeroFree (h.fits hslice) hz

theorem Steady.step (h : Steady c) {l : ClusterLabel} (hfits : l.Fits)
    (hwa : WellAddressed c'.serviceManager) (hstep : clusterSystem.step c l c') : Steady c' where
  sound := sound_cluster_step h.sound hstep
  wellAddressed := hwa
  mirrors := mirrors_cluster_step h.sound h.wellAddressed hwa h.mirrors hstep
  zeroFree := by
    cases l with
    | event e =>
      obtain rfl : c' = c.deliver e := hstep
      exact h.zeroFree
    | work key env => exact zeroFree_work h hstep
  fits := by
    intro k slice hk
    cases l with
    | event e =>
      obtain rfl : c' = c.deliver e := hstep
      exact fits_deliver h hfits hk
    | work key env =>
      rw [(work_cases hstep).2.1] at hk
      exact h.fits hk

theorem steady_of_run {tr : List (Transition Cluster ClusterLabel)}
    (hrun : Run clusterSystem clusterSystem.init tr c) (hfits : ∀ t ∈ tr, t.label.Fits)
    (hwa : ∀ t ∈ tr, WellAddressed t.post.serviceManager) : Steady c := by
  refine (hrun.invariant_of (C := fun _ l c' => l.Fits ∧ WellAddressed c'.serviceManager)
    steady_init ?_ fun t ht => ⟨hfits t ht, hwa t ht⟩).1
  intro a l b h hC hst
  exact h.step hC.1 hC.2 hst

/-- **What can be removed along a run**: services without ports, and services without
endpoints. -/
theorem Steady.clears_iff (h : Steady c) {env : Env} (hfault : ∀ i, env.fault i = none)
    (key : String) :
    (∃ n, c.serviceManager.Clears env key n) ↔
      ∀ old, c.serviceManager.services key = some old → old.portList = [] ∨ old.endpoints = [] := by
  cases hlive : c.serviceManager.services key with
  | none =>
    refine iff_of_true ⟨0, (clears_of_absent hlive).mpr rfl⟩ ?_
    intro old hold
    exact absurd hold (by simp)
  | some old =>
    simp only [clears_of_live hlive, exists_and_left, exists_eq, and_true, Option.some.injEq,
      forall_eq']
    constructor
    · -- a deletion with a port to visit and an endpoint to remove asks for position `0`
      intro hcan
      by_contra hne
      rw [not_or] at hne
      obtain ⟨p, hp⟩ := List.exists_mem_of_ne_nil _ hne.1
      have hpresent := (present_deleteScript_iff old.portList).mp hcan.deletable.2 p hp
      have hzero := hpresent.2 0 (List.length_pos_iff.mpr hne.2)
      rw [h.zeroFree] at hzero
      exact absurd hzero (by simp)
    · -- the frontends are there and pairwise different, and nothing else is asked for
      intro hidle
      refine ⟨h.sound.ports hlive, h.sound.addressable hlive, fun i _ _ => hfault i, ?_⟩
      rcases hidle with hports | hnil
      · constructor
        · rw [hports]
          exact List.nodup_nil
        · rw [hports]
          exact fun op hop => absurd hop List.not_mem_nil
      · refine (deletable_iff (by rw [hnil]; exact Nat.zero_le _)).mpr
          ⟨h.wellAddressed.nodup_frontendKey hlive, Or.inl hnil, fun p hp => ⟨?_, ?_⟩⟩
        · rw [h.mirrors.frontend hlive hp]
          rfl
        · intro i hi
          rw [hnil] at hi
          exact absurd hi (Nat.not_lt_zero i)

end Steps

/-- **Exactly when the process survives a slice.** At the end of every run of informer events
and workers, over slices with at most 65535 ready addresses and with the live services well
addressed in every state, and for every slice in the lister whose service is listed too, with
a kernel that fails no operation by itself: the handling of the slice returns if and only if
`NewService` accepts the slice, the service the manager holds for it (if any) has no port or
no endpoint, and the slice is terminating or its Service has no ports or an IPv4 cluster
IP. -/
theorem handling_survives_iff {c : Cluster} {tr : List (Transition Cluster ClusterLabel)}
    (hrun : Run clusterSystem clusterSystem.init tr c) (hfits : ∀ t ∈ tr, t.label.Fits)
    (hwa : ∀ t ∈ tr, WellAddressed t.post.serviceManager)
    {slice : Api.EndpointSlice} {svc : Api.Service}
    (hslice : c.endpointsLister.get slice.ns.text slice.name.text = some slice)
    (hsvc : c.serviceLister.get slice.ns.text slice.serviceName.text = some svc)
    (env : Env) (hfault : ∀ i, env.fault i = none) :
    (c.processNextWorkItem env (sliceQueueKey slice)).Returned ↔
      Extractable slice ∧
      (∀ old, c.serviceManager.services slice.labelKey = some old →
        old.portList = [] ∨ old.endpoints = []) ∧
      (slice.terminating = false → svc.ports = [] ∨ (IP.encoded (parseIP svc.clusterIP)).isSome)
      := by
  have h := steady_of_run hrun hfits hwa
  rw [handling_returned_iff h.sound hslice hsvc, ← h.clears_iff hfault,
    ← addressable_serviceOf_iff svc slice]
  refine and_congr_right fun _ => ?_
  constructor
  · rintro ⟨n, hn, happ⟩
    exact ⟨⟨n, hn⟩, fun hterm => (happ hterm).addressable⟩
  · rintro ⟨⟨n, hn⟩, haddr⟩
    exact ⟨n, hn, fun hterm => ⟨rfl, haddr hterm, fun i _ _ => hfault i⟩⟩

theorem fits_publishing : ∀ t ∈ publishing, t.label.Fits := by
  intro t ht
  simp only [publishing, List.mem_cons, List.not_mem_nil, or_false] at ht
  rcases ht with rfl | rfl | rfl | rfl
  · exact trivial
  · exact (by decide : webSliceA.readyAddresses.length ≤ 65535)
  · exact trivial
  · exact trivial

/-- The manager holds nothing until the slice is handled, then the web service alone. -/
theorem wellAddressed_publishing : ∀ t ∈ publishing, WellAddressed t.post.serviceManager := by
  have hmgr : serviceHandled.serviceManager = announcedBoth.serviceManager :=
    work_service (by decide : (Obj.service webObject).queueKey = some "Service/default/web")
      step_serviceHandled
  intro t ht
  simp only [publishing, List.mem_cons, List.not_mem_nil, or_false] at ht
  rcases ht with rfl | rfl | rfl | rfl
  · exact wellAddressed_init
  · exact wellAddressed_init
  · rw [hmgr]
    exact wellAddressed_init
  · have hset : published.serviceManager.services =
        Table.empty.set "default/web" { webService with serviceId := 1 } := rfl
    exact wellAddressed_single hset rfl (by decide) (by decide)

/-- The web service is published; its slice cannot be handled a second time. -/
theorem second_handling_panics :
    ¬ (published.processNextWorkItem .calm (sliceQueueKey webSliceA)).Returned := by
  have hlive : published.serviceManager.services webSliceA.labelKey =
      some { webService with serviceId := 1 } := by decide
  rw [handling_survives_iff run_publishing fits_publishing wellAddressed_publishing (by decide)
    (by decide : published.serviceLister.get webSliceA.ns.text webSliceA.serviceName.text =
      some webObject) .calm fun _ => rfl]
  rintro ⟨-, hidle, -⟩
  rcases hidle _ hlive with hports | heps
  · exact absurd hports (by decide)
  · exact absurd heps (by decide)

end EProxy
