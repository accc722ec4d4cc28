import EProxy.Manager.Steps

/-!
# The frontend table

`serviceMap` is the kernel's copy of what `services` says about frontends. `Mirrors`
is that relation: a key is in the map exactly when it is the key of a port of a live
service, and then with the value of that service. It holds along every run of calls
that return, provided the live services are `WellAddressed` in every state of the run:
their VIPs are four bytes and pairwise different, so that a key tells the service it
belongs to, and the ports of a service are told apart by number and protocol.

Then `DeleteService`, alone or inside `UpdateService`, never asks for a frontend that
is not there (`serviceMap_mirrors`); what it may miss is a backend.
-/

namespace EProxy

open Framework Machine

/-- Live services have pairwise different four-byte VIPs, and each has ports with
pairwise different numbers and protocols, all admitted. -/
structure WellAddressed (s : ServiceManager) : Prop where
  vip : ∀ {k svc}, s.services k = some svc → svc.ipAddress.length = 4
  distinct : ∀ {k k' svc svc'}, s.services k = some svc → s.services k' = some svc' → k ≠ k' →
    svc.ipAddress ≠ svc'.ipAddress
  ports : ∀ {k svc}, s.services k = some svc →
    (svc.portList.map fun p => (p.port, p.protocol)).Nodup
  protocols : ∀ {k svc}, s.services k = some svc → ∀ p ∈ svc.portList, p.protocol.Admitted

/-- `serviceMap` holds the frontends of the live services and nothing else. -/
def Mirrors (s : ServiceManager) : Prop :=
  ∀ key v, s.maps.frontend key = some v ↔
    ∃ k svc p, s.services k = some svc ∧ p ∈ svc.portList ∧
      key = svc.frontendKey p ∧ v = svc.frontendValue

/-! ### Keys tell services and ports apart -/

/-- Four-byte addresses with one encoding are equal. -/
theorem ipAddress_eq_of_vip {svc svc' : Service} (h : svc.ipAddress.length = 4)
    (h' : svc'.ipAddress.length = 4) (hvip : svc.vip = svc'.vip) :
    svc.ipAddress = svc'.ipAddress := by
  obtain ⟨b₀, b₁, b₂, b₃, hip, henc⟩ := encoded_of_length h
  obtain ⟨c₀, c₁, c₂, c₃, hip', henc'⟩ := encoded_of_length h'
  rw [Service.vip, Service.vip, henc, henc'] at hvip
  have hbytes := congrArg bytes32 hvip
  rw [Option.getD_some, Option.getD_some, bytes32_word32, bytes32_word32] at hbytes
  rw [hip, hip', hbytes]

variable {s s₁ s' : ServiceManager} {key : String} {svc : Service} {order : List Ports}

/-- Ports of different live services have different keys. -/
theorem WellAddressed.key_eq (h : WellAddressed s) {k k' : String} {a b : Service} {p q : Ports}
    (ha : s.services k = some a) (hb : s.services k' = some b)
    (heq : a.frontendKey p = b.frontendKey q) : k = k' := by
  by_contra hne
  exact h.distinct ha hb hne
    (ipAddress_eq_of_vip (h.vip ha) (h.vip hb) (congrArg Service4Key.serviceIP heq))

/-- Ports of one live service have different keys. -/
theorem WellAddressed.nodup_frontendKey (h : WellAddressed s) {k : String}
    (hlive : s.services k = some svc) : (svc.portList.map svc.frontendKey).Nodup := by
  have hpairs := h.ports hlive
  rw [List.Nodup, List.pairwise_map] at hpairs ⊢
  refine hpairs.imp_of_mem fun {p q} hp hq hne heq => hne ?_
  have hport : littleEndianPort p.port = littleEndianPort q.port :=
    congrArg Service4Key.servicePort heq
  rw [littleEndianPort_eq_htons, littleEndianPort_eq_htons] at hport
  have hproto : p.protocol = q.protocol := parseProto_inj (h.protocols hlive p hp)
    (h.protocols hlive q hq) (congrArg Service4Key.proto heq)
  rw [htons_injective hport, hproto]

theorem wellAddressed_init : WellAddressed (newServiceManager Maps.empty) :=
  ⟨fun h => absurd h (by simp [newServiceManager]),
    fun h => absurd h (by simp [newServiceManager]),
    fun h => absurd h (by simp [newServiceManager]),
    fun h => absurd h (by simp [newServiceManager])⟩

/-- A manager that holds one service only. -/
theorem wellAddressed_single {key : String} (hset : s.services = Table.empty.set key svc)
    (hvip : svc.ipAddress.length = 4)
    (hports : (svc.portList.map fun p => (p.port, p.protocol)).Nodup)
    (hproto : ∀ p ∈ svc.portList, p.protocol.Admitted) : WellAddressed s := by
  have honly : ∀ {k held}, s.services k = some held → k = key ∧ held = svc := by
    intro k held hk
    rw [hset, Table.set_apply] at hk
    split at hk
    · next h => exact ⟨h, (Option.some.inj hk).symm⟩
    · exact absurd hk (by simp)
  refine ⟨fun h => ?_, fun h h' hne => ?_, fun h => ?_, fun h => ?_⟩
  · rwa [(honly h).2]
  · exact absurd ((honly h).1.trans (honly h').1.symm) hne
  · rwa [(honly h).2]
  · rwa [(honly h).2]

/-! ### The mirror along a run -/

/-- What the map has of a live service. -/
theorem Mirrors.frontend (h : Mirrors s) (hlive : s.services key = some svc) {p : Ports}
    (hp : p ∈ svc.portList) : s.maps.frontend (svc.frontendKey p) = some svc.frontendValue :=
  (h _ _).mpr ⟨key, svc, p, hlive, hp, rfl, rfl⟩

theorem mirrors_init : Mirrors (newServiceManager Maps.empty) := by
  intro key v
  refine iff_of_false (by simp [newServiceManager]) ?_
  rintro ⟨k, svc, p, hk, -⟩
  exact absurd hk (by simp [newServiceManager])

theorem Removes.mirrors (h : Removes s key svc order s') (hwa : WellAddressed s)
    (hmir : Mirrors s) : Mirrors s' := by
  intro k v
  rw [h.maps, fold_frontend_deleteScript]
  constructor
  · intro hk
    split at hk
    · exact absurd hk (by simp)
    · next hnot =>
      obtain ⟨k', a, p, ha, hp, rfl, rfl⟩ := (hmir k v).mp hk
      refine ⟨k', a, p, ?_, hp, rfl, rfl⟩
      rw [h.services, Table.erase_of_ne _ ?_, ha]
      -- the removed service has no port with a key left
      rintro rfl
      obtain rfl := Option.some.inj (ha.symm.trans h.live)
      exact hnot (List.mem_map.mpr ⟨p, h.perm.mem_iff.mpr hp, rfl⟩)
  · rintro ⟨k', a, p, ha, hp, rfl, rfl⟩
    have hne : k' ≠ key := by
      rintro rfl
      rw [h.services, Table.erase_self] at ha
      exact absurd ha (by simp)
    rw [h.services, Table.erase_of_ne _ hne] at ha
    rw [if_neg, hmir.frontend ha hp]
    intro hmem
    obtain ⟨q, -, heq⟩ := List.mem_map.mp hmem
    exact hne (hwa.key_eq h.live ha heq).symm

theorem Publishes.mirrors (h : Publishes s svc order s') (hm : s.maps.NonNil)
    (hfree : s.services svc.serviceKey = none) (hwa : WellAddressed s') (hmir : Mirrors s) :
    Mirrors s' := by
  have hself : s'.services svc.serviceKey = some (s.allocated svc) := by
    rw [h.services, Table.set_self]
  have hother : ∀ {k}, k ≠ svc.serviceKey → s'.services k = s.services k := by
    intro k hk
    rw [h.services, Table.set_of_ne _ _ hk]
  have hports : (s.allocated svc).portList = svc.portList := allocated_portList ⟨s, []⟩ svc
  -- a key in the map is one just written, or an old one of another service
  intro k v
  rw [h.maps, fold_frontend_appendScript _ _ hm]
  constructor
  · intro hk
    split at hk
    · next hmem =>
      obtain ⟨p, hp, rfl⟩ := List.mem_map.mp hmem
      exact ⟨_, _, p, hself, by rw [hports]; exact h.perm.mem_iff.mp hp, rfl,
        (Option.some.inj hk).symm⟩
    · obtain ⟨k', a, p, ha, hrest⟩ := (hmir k v).mp hk
      refine ⟨k', a, p, ?_, hrest⟩
      rw [hother, ha]
      rintro rfl
      rw [hfree] at ha
      exact absurd ha (by simp)
  · rintro ⟨k', a, p, ha, hp, rfl, rfl⟩
    by_cases hk : k' = svc.serviceKey
    · subst hk
      obtain rfl := Option.some.inj (hself.symm.trans ha)
      rw [if_pos]
      rw [hports] at hp
      exact List.mem_map.mpr ⟨p, h.perm.mem_iff.mpr hp, rfl⟩
    · rw [if_neg, hmir.frontend ((hother hk).symm.trans ha) hp]
      intro hmem
      obtain ⟨q, -, heq⟩ := List.mem_map.mp hmem
      exact hk (hwa.key_eq hself ha heq).symm

theorem Cleared.mirrors (h : Cleared s key s') (hwa : WellAddressed s) (hmir : Mirrors s) :
    Mirrors s' := by
  rcases h with ⟨-, rfl⟩ | ⟨svc, order, h⟩
  · exact hmir
  · exact h.mirrors hwa hmir

/-- A step between well-addressed states keeps the mirror. -/
theorem mirrors_step {l : Invocation} (hs : Sound s) (hwa : WellAddressed s)
    (hwa' : WellAddressed s') (hmir : Mirrors s)
    (h : (returningSystem Call.UpdateOrDelete).step s l s') : Mirrors s' := by
  rcases step_cases hs h with ⟨key, _, hcl⟩ | ⟨svc, s₁, order, _, hcl, hpub⟩
  · exact hcl.mirrors hwa hmir
  · refine hpub.mirrors (hcl.nonNil hs.nonNil) ?_ hwa' (hcl.mirrors hwa hmir)
    rw [hcl.services_apply, if_pos rfl]

theorem mirrors_of_run {tr : List (Transition ServiceManager Invocation)}
    (hrun : Run (returningSystem Call.UpdateOrDelete) (newServiceManager Maps.empty) tr s)
    (hwa : ∀ t ∈ tr, WellAddressed t.post) : Sound s ∧ WellAddressed s ∧ Mirrors s := by
  refine (hrun.invariant_of (I := fun s => Sound s ∧ WellAddressed s ∧ Mirrors s)
    (C := fun _ _ s' => WellAddressed s') ⟨sound_init, wellAddressed_init, mirrors_init⟩
    (fun a l b hI hwa' hst => ?_) hwa).1
  obtain ⟨hs, hwa, hmir⟩ := hI
  exact ⟨sound_step hs hst, hwa', mirrors_step hs hwa hwa' hmir hst⟩

/-! ### The deletions of a call -/

/-- The key of a frontend deletion. -/
def MapOp.deletedFrontend : MapOp → Option Service4Key
  | .deleteService k => some k
  | _ => none

theorem deletedFrontend_deleteService (k : Service4Key) :
    (MapOp.deleteService k).deletedFrontend = some k := rfl

theorem filterMap_deleteScript (svc : Service) (order : List Ports) :
    (deleteScript svc order).filterMap MapOp.deletedFrontend = order.map svc.frontendKey := by
  have hendpoints : (deleteEndpointOps svc 0 svc.endpoints.length).filterMap
      MapOp.deletedFrontend = [] := by
    rw [List.filterMap_eq_nil_iff]
    intro op hop
    obtain ⟨i, -, rfl⟩ := List.mem_map.mp hop
    rfl
  induction order with
  | nil => rfl
  | cons port rest ih =>
    rw [deleteScript_cons, List.filterMap_append, ih, deletePortOps,
      List.filterMap_cons_some (deletedFrontend_deleteService _), hendpoints, List.map_cons]
    rfl

theorem filterMap_appendScript (svc : Service) (order : List Ports) :
    (appendScript svc order).filterMap MapOp.deletedFrontend = [] := by
  rw [List.filterMap_eq_nil_iff]
  intro op hop
  obtain ⟨port, -, hop⟩ := List.mem_flatMap.mp hop
  rcases List.mem_cons.mp hop with rfl | hop
  · rfl
  · obtain ⟨e, -, rfl⟩ := List.mem_map.mp hop
    rfl

/-- A script whose frontend deletions name pairwise different keys, all there, meets
every one of them, wherever it stops. -/
theorem exec_frontend_met {fault : ℕ → Option MapError} {m : Maps} {ops : List MapOp}
    (hm : m.NonNil) (hnodup : (ops.filterMap MapOp.deletedFrontend).Nodup)
    (hmet : ∀ k ∈ ops.filterMap MapOp.deletedFrontend, (m.frontend k).isSome) :
    ∀ ev ∈ (bpfMachine.exec fault ⟨m, []⟩ ops).2.journal,
      ∀ k, ev.op = .deleteService k → (ev.before.frontend k).isSome := by
  have hrule := exec_rule bpfMachine fault ⟨m, []⟩ ops
    (fun m rest => m.NonNil ∧ (rest.filterMap MapOp.deletedFrontend).Nodup ∧
      ∀ k ∈ rest.filterMap MapOp.deletedFrontend, (m.frontend k).isSome)
    (fun op m => ∀ k, op = .deleteService k → (m.frontend k).isSome)
    ?_ ⟨hm, hnodup, hmet⟩
  · exact fun ev hev => ((hrule ev hev).resolve_left List.not_mem_nil).1
  · rintro m op rest ⟨hm, hnodup, hmet⟩
    have hm' : (bpfMachine.apply m op).NonNil := apply_nonNil hm op
    cases op with
    | updateService k v =>
      refine ⟨fun k' hk' => absurd hk' (by simp), fun _ => ⟨hm', hnodup, fun k' hk' => ?_⟩⟩
      rw [bpfMachine_apply, frontend_updateService _ _ _ hm]
      split
      · rfl
      · exact hmet k' hk'
    | deleteService k =>
      rw [List.filterMap_cons_some (deletedFrontend_deleteService k)] at hnodup hmet
      -- the key is there now, and none of the later deletions asks for it again
      obtain ⟨hnot, hnodup⟩ := List.nodup_cons.mp hnodup
      refine ⟨fun k' hk' => ?_, fun _ => ⟨hm', hnodup, fun k' hk' => ?_⟩⟩
      · rw [← MapOp.deleteService.inj hk']
        exact hmet k List.mem_cons_self
      · rw [bpfMachine_apply, frontend_deleteService, if_neg]
        · exact hmet k' (List.mem_cons_of_mem _ hk')
        · rintro rfl
          exact hnot hk'
    | updateEndpoint e v =>
      exact ⟨fun k' hk' => absurd hk' (by simp), fun _ => ⟨hm', hnodup, hmet⟩⟩
    | deleteEndpoint e =>
      exact ⟨fun k' hk' => absurd hk' (by simp), fun _ => ⟨hm', hnodup, hmet⟩⟩

/-- In a mirrored, well-addressed state no call asks for a frontend that is not
there. -/
theorem invoke_frontend_met (hs : Sound s) (hwa : WellAddressed s) (hmir : Mirrors s) (env : Env)
    {call : Call} (hcall : call.UpdateOrDelete) :
    ∀ ev ∈ (s.invoke env call).2.journal,
      ∀ k, ev.op = .deleteService k → (ev.before.frontend k).isSome := by
  obtain ⟨opsD, opsA, hD, hA, hlog⟩ := invoke_log env hs.nonNil hcall
  have hjournal : (s.invoke env call).2.journal =
      (bpfMachine.exec env.fault ⟨s.maps, []⟩ (opsD ++ opsA)).2.journal := congrArg Log.journal hlog
  have hkeysA : opsA.filterMap MapOp.deletedFrontend = [] := by
    rcases hA with rfl | ⟨svc, id, order, -, -, rfl⟩
    · rfl
    · exact filterMap_appendScript _ order
  -- the appended part deletes nothing, so only the deletions of the old service count
  rw [hjournal]
  refine exec_frontend_met hs.nonNil ?_ ?_
  all_goals rw [List.filterMap_append, hkeysA, List.append_nil]
  all_goals rcases hD with rfl | ⟨key, svc, order, hlive, hperm, rfl⟩
  · exact List.nodup_nil
  · rw [filterMap_deleteScript, (hperm.map svc.frontendKey).nodup_iff]
    exact hwa.nodup_frontendKey hlive
  · exact fun k hk => absurd hk List.not_mem_nil
  · intro k hk
    rw [filterMap_deleteScript] at hk
    obtain ⟨p, hp, rfl⟩ := List.mem_map.mp hk
    exact Option.isSome_iff_exists.mpr ⟨_, (hmir (svc.frontendKey p) svc.frontendValue).mpr
      ⟨key, svc, p, hlive, hperm.mem_iff.mp hp, rfl, rfl⟩⟩

/-- **The frontend table mirrors the live services.** In every state reached by calls
that return, when the live services are well addressed in every state of the run:
`serviceMap` holds a key exactly when it is made of the VIP of a live service and of
one of its ports, with the id and the number of endpoints of that service; and no
further call of `DeleteService` or `UpdateService` deletes a frontend that is not
there. -/
theorem serviceMap_mirrors {tr : List (Transition ServiceManager Invocation)}
    (hrun : Run (returningSystem Call.UpdateOrDelete) (newServiceManager Maps.empty) tr s)
    (hwa : ∀ t ∈ tr, WellAddressed t.post) :
    (∀ key v, s.maps.frontend key = some v ↔
      ∃ k svc p, s.services k = some svc ∧ p ∈ svc.portList ∧
        key = ⟨svc.vip, littleEndianPort p.port, parseProto p.protocol, 0⟩ ∧
        v = ⟨svc.serviceId, UInt16.ofNat svc.endpoints.length⟩) ∧
    ∀ env call, call.UpdateOrDelete → ∀ ev ∈ (s.invoke env call).2.journal,
      ∀ key, ev.op = .deleteService key → (ev.before.frontend key).isSome := by
  obtain ⟨hs, hwa, hmir⟩ := mirrors_of_run hrun hwa
  exact ⟨hmir, fun env call hcall => invoke_frontend_met hs hwa hmir env hcall⟩

/-- A service with one port number for two protocols. -/
def dnsService : Service :=
  ⟨"dns", "kube-system", 0, [10, 96, 0, 53],
    some ((Typed.new.add ⟨.udp, 53, 53⟩).add ⟨.tcp, 53, 53⟩), [0x0100f40a]⟩

/-- The manager that has published it. -/
def afterDns : ServiceManager :=
  ((newServiceManager Maps.empty).invoke .calm (.updateService dnsService)).2.mgr

theorem wellAddressed_afterDns : WellAddressed afterDns := by
  have honly : ∀ {k svc}, afterDns.services k = some svc →
      k = "kube-system/dns" ∧ svc = { dnsService with serviceId := 1 } := by
    intro k svc hk
    have hset : afterDns.services =
      Table.empty.set "kube-system/dns" { dnsService with serviceId := 1 } := rfl
    rw [hset, Table.set_apply] at hk
    split at hk
    · next h => exact ⟨h, (Option.some.inj hk).symm⟩
    · exact absurd hk (by simp)
  refine ⟨fun h => ?_, fun h h' hne => ?_, fun h => ?_, fun h => ?_⟩
  · rw [(honly h).2]; rfl
  · exact absurd ((honly h).1.trans (honly h').1.symm) hne
  · rw [(honly h).2]; decide
  · rw [(honly h).2]; decide

/-- Its frontends are in the map. -/
theorem serviceMap_mirrors_dns :
    afterDns.maps.frontend ⟨0x3500600a, 0x3500, 17, 0⟩ = some ⟨1, 1⟩ := by
  have hrun : Run (returningSystem Call.UpdateOrDelete) (newServiceManager Maps.empty)
      ([] ++ [⟨newServiceManager Maps.empty, ⟨.updateService dnsService, .calm⟩, afterDns⟩])
      afterDns := .snoc (.nil _) ⟨trivial, by decide, rfl⟩
  refine ((serviceMap_mirrors hrun fun t ht => ?_).1 _ _).mpr
    ⟨"kube-system/dns", { dnsService with serviceId := 1 }, ⟨.udp, 53, 53⟩, by decide, by decide,
      by decide, by decide⟩
  obtain rfl := List.mem_singleton.mp ht
  exact wellAddressed_afterDns

end EProxy
