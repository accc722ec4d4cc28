import EProxy.Ebpf.Connect4
import EProxy.Manager.Atomic

/-!
# Backends behind frontends

`connect4` looks up a frontend, then one of the backends it counts, and the control
plane may be anywhere inside a call in between. Every map operation being atomic, the
maps such a connection reads are one of the `points` of a transition. `Integrity` is
what keeps the second lookup from failing: behind a frontend of count `n` the
positions `1` to `n` are all there.

`AppendService` writes the frontend before the backends, and `DeleteService` takes a
frontend away before its backends. Integrity is lost at the first frontend that a run
writes for a service with endpoints: until then the backend map is empty (`Bare`).
`integrity_iff_writesIdle` says so for every run, calls that panic included.
-/

namespace EProxy

open Framework Machine

/-- The maps a reader can meet around and inside a call: where it starts, after each
of its map operations, and where it ends. -/
def points (t : Transition ServiceManager Invocation) : List Maps :=
  t.pre.maps :: (t.pre.invoke t.label.env t.label.call).2.journal.map bpfMachine.after ++
    [t.post.maps]

/-- Behind every frontend all the positions it counts are there. -/
def Integrity (m : Maps) : Prop :=
  ∀ k v, m.frontend k = some v → ∀ i, 1 ≤ i → i ≤ v.count.toNat →
    (m.backend ⟨slot v.serviceID i⟩).isSome

/-- What `UpdateService` has to remove before it publishes `svc` gets removed, by `n` map
operations. -/
def ClearsIn (s : ServiceManager) (env : Env) (svc : Service) (n : ℕ) : Prop :=
  match s.services svc.serviceKey with
  | none => n = 0
  | some old =>
    match s.services old.serviceKey with
    | none => n = 0
    | some d => CanDelete s.maps env 0 d ∧ n = d.opCount

section ClearsIn

variable {s : ServiceManager} {env : Env} {svc old d : Service} {n : ℕ}

theorem clearsIn_of_absent (h : s.services svc.serviceKey = none) :
    ClearsIn s env svc n ↔ n = 0 := by
  simp only [ClearsIn, h]

theorem clearsIn_of_missing (h : s.services svc.serviceKey = some old)
    (h' : s.services old.serviceKey = none) : ClearsIn s env svc n ↔ n = 0 := by
  simp only [ClearsIn, h, h']

theorem clearsIn_of_live (h : s.services svc.serviceKey = some old)
    (h' : s.services old.serviceKey = some d) :
    ClearsIn s env svc n ↔ CanDelete s.maps env 0 d ∧ n = d.opCount := by
  simp only [ClearsIn, h, h']

end ClearsIn

/-- `UpdateService` gets as far as a frontend: the service has a port and an address,
what was there under its key gets removed, and the kernel does not fail the operation
that follows. -/
def WritesFrontend (s : ServiceManager) (env : Env) (svc : Service) : Prop :=
  svc.portList ≠ [] ∧ svc.Addressable ∧ ∃ n, ClearsIn s env svc n ∧ env.fault n = none

/-- No frontend is written by the call for a service with endpoints. -/
def WritesIdle (t : Transition ServiceManager Invocation) : Prop :=
  ∀ svc, t.label.call = .updateService svc → svc.endpoints ≠ [] →
    ¬ WritesFrontend t.pre t.label.env svc

/-- With integrity `connect4` finds the backend it chooses. -/
theorem Integrity.not_dangling {m : Maps} (h : Integrity m) (r : UInt32) (ctx : BpfSockAddr) :
    (m.connect4 r ctx).1 ≠ .danglingBackend := by
  by_cases htype : ctx.type = sockStream ∨ ctx.type = sockDgram
  · rw [connect4_eq m r ctx htype]
    cases hfront : m.frontend ctx.frontendKey with
    | none => simp
    | some v =>
      by_cases hcount : v.count = 0
      · simp [hcount]
      · -- the index drawn is one of the positions `1` to `count`
        have hpos : 0 < v.count.toNat :=
          Nat.pos_of_ne_zero fun h0 => hcount (UInt16.toNat_inj.mp h0)
        have hlt : r.toNat % v.count.toNat < v.count.toNat := Nat.mod_lt _ hpos
        have hback := h _ v hfront (backendIndex r v.count).toNat
          (by rw [backendIndex_toNat r hcount]; omega) (by rw [backendIndex_toNat r hcount]; omega)
        obtain ⟨b, hb⟩ := Option.isSome_iff_exists.mp hback
        simp [hcount, hb]
  · rw [Maps.connect4, connect4, if_pos (by tauto)]
    simp

/-! ### Maps without backends -/

/-- No backend, and no frontend that counts one. -/
structure Bare (m : Maps) : Prop where
  nonNil : m.NonNil
  counts : ∀ k v, m.frontend k = some v → v.count = 0
  backends : ∀ e, m.backend e = none

theorem Bare.integrity {m : Maps} (h : Bare m) : Integrity m := by
  intro k v hv i h₁ h₂
  rw [h.counts k v hv] at h₂
  exact absurd (Nat.le_trans h₁ h₂) (by decide)

theorem bare_empty : Bare Maps.empty :=
  ⟨Maps.nonNil_empty, fun k v h => absurd h (by simp), fun _ => rfl⟩

theorem Bare.apply_isDelete {m : Maps} (h : Bare m) {op : MapOp} (hop : op.IsDelete) :
    Bare (op.apply m) := by
  refine ⟨apply_nonNil h.nonNil op, fun k v hk => ?_, fun e => ?_⟩
  · cases op with
    | updateService k v => exact hop.elim
    | updateEndpoint e v => exact hop.elim
    | deleteService k' =>
      rw [frontend_deleteService] at hk
      split at hk
      · exact absurd hk (by simp)
      · exact h.counts k v hk
    | deleteEndpoint e => exact h.counts k v hk
  · cases op with
    | updateService k v => exact hop.elim
    | updateEndpoint e v => exact hop.elim
    | deleteService k => exact h.backends e
    | deleteEndpoint e' => rw [backend_deleteEndpoint, h.backends e, ite_self]

theorem Bare.apply_updateService {m : Maps} (h : Bare m) {k : Service4Key} {v : Service4Value}
    (hv : v.count = 0) : Bare ((MapOp.updateService k v).apply m) := by
  refine ⟨apply_nonNil h.nonNil _, fun k' v' hk => ?_, h.backends⟩
  rw [frontend_updateService _ _ _ h.nonNil] at hk
  split at hk
  · rw [← Option.some.inj hk]
    exact hv
  · exact h.counts k' v' hk

/-- Writing a frontend that counts a backend loses integrity. -/
theorem Bare.not_integrity_updateService {m : Maps} (h : Bare m) {k : Service4Key}
    {v : Service4Value} (hv : v.count ≠ 0) :
    ¬ Integrity ((MapOp.updateService k v).apply m) := by
  intro hint
  have hpos : 0 < v.count.toNat := Nat.pos_of_ne_zero fun h0 => hv (UInt16.toNat_inj.mp h0)
  have hfront : ((MapOp.updateService k v).apply m).frontend k = some v := by
    rw [frontend_updateService _ _ _ h.nonNil, if_pos rfl]
  have hback := hint k v hfront 1 (Nat.le_refl 1) hpos
  rw [backend_updateService, h.backends] at hback
  exact absurd hback (by simp)

/-- The operations of a service without endpoints. -/
theorem mem_appendScript_idle {svc : Service} (hidle : svc.endpoints = []) {order : List Ports}
    {op : MapOp} (hop : op ∈ appendScript svc order) :
    ∃ k v, op = .updateService k v ∧ v.count = 0 := by
  obtain ⟨port, -, hop⟩ := List.mem_flatMap.mp hop
  rcases List.mem_cons.mp hop with rfl | hop
  · refine ⟨_, _, rfl, ?_⟩
    rw [Service.frontendValue, hidle]
    rfl
  · rw [hidle] at hop
    exact absurd hop List.not_mem_nil

/-! ### Frontends written -/

/-- An event by which a frontend came to be written. -/
def WroteFrontend (ev : MapEvent) : Prop :=
  ev.err = none ∧ ∃ k v, ev.op = .updateService k v

section Wrote

variable {fault : ℕ → Option MapError} {st : Log Maps MapOp MapError}

/-- Deletions write no frontend. -/
theorem exec_deletes_not_wrote (hst : ∀ ev ∈ st.journal, ¬ WroteFrontend ev)
    {ops : List MapOp} (hops : ∀ op ∈ ops, op.IsDelete) :
    ∀ ev ∈ (bpfMachine.exec fault st ops).2.journal, ¬ WroteFrontend ev := by
  intro ev hev
  rcases exec_rule bpfMachine fault st ops (fun _ rest => ∀ op ∈ rest, op.IsDelete)
    (fun op _ => op.IsDelete)
    (fun _ op _ hJ => ⟨hJ op List.mem_cons_self,
      fun _ op' h => hJ op' (List.mem_cons_of_mem _ h)⟩) hops ev hev with hold | ⟨hdel, -⟩
  · exact hst ev hold
  · rintro ⟨-, k, v, hop⟩
    rw [hop] at hdel
    exact hdel

/-- A script that starts with a frontend writes one unless the kernel fails it. -/
theorem exec_wrote_iff (hst : ∀ ev ∈ st.journal, ¬ WroteFrontend ev) (k : Service4Key)
    (v : Service4Value) (more : List MapOp) :
    (∃ ev ∈ (bpfMachine.exec fault st (.updateService k v :: more)).2.journal,
      WroteFrontend ev) ↔ fault st.journal.length = none := by
  cases hf : fault st.journal.length with
  | none =>
    have hv : bpfMachine.verdict fault st.journal.length st.mem (.updateService k v) = none :=
      verdict_eq_none_iff.mpr ⟨hf, rfl⟩
    rw [exec_cons_none (issue_none hv)]
    refine iff_of_true ⟨⟨.updateService k v, st.mem, none⟩, ?_, rfl, k, v, rfl⟩ rfl
    exact mem_exec_journal (List.mem_append_right _ (List.mem_singleton.mpr rfl)) more
  | some e =>
    have hv : bpfMachine.verdict fault st.journal.length st.mem (.updateService k v) = some e := by
      rw [verdict, hf]
    rw [exec_cons_some (issue_some hv)]
    refine iff_of_false ?_ (by simp)
    rintro ⟨ev, hev, hwrote⟩
    -- the failed operation ends the script, so it is the only new event
    rcases List.mem_append.mp hev with hev | hev
    · exact hst ev hev hwrote
    · obtain rfl := List.mem_singleton.mp hev
      exact absurd hwrote.1 (by simp)

end Wrote

section Calls

variable {env : Env} {w : World}

theorem deleteService_not_wrote (hm : w.mgr.maps.NonNil)
    (hw : ∀ ev ∈ w.journal, ¬ WroteFrontend ev) (key : String) :
    ∀ ev ∈ ((deleteService env key).run w).2.journal, ¬ WroteFrontend ev := by
  obtain ⟨ops, hops, hlog, -⟩ := deleteService_log env hm key
  rw [show ((deleteService env key).run w).2.journal = _ from congrArg Log.journal hlog]
  refine exec_deletes_not_wrote hw ?_
  rcases hops with rfl | ⟨svc, order, -, -, rfl⟩
  · exact fun op hop => absurd hop List.not_mem_nil
  · exact isDelete_deleteScript svc order

/-- The script of an append writes a frontend if there is a port and its first operation does
not fail. -/
theorem appendScript_wrote_iff (hw : ∀ ev ∈ w.journal, ¬ WroteFrontend ev) {svc : Service}
    {set : Typed Ports} (hset : svc.ports = some set) :
    (∃ ev ∈ (bpfMachine.exec env.fault w.log
      (appendScript (w.allocated svc) (env.appendOrder.visit set.items))).2.journal,
      WroteFrontend ev) ↔ svc.portList ≠ [] ∧ env.fault w.journal.length = none := by
  have hperm := visit_perm_portList env.appendOrder hset
  cases horder : env.appendOrder.visit set.items with
  | nil =>
    rw [horder, List.nil_perm] at hperm
    refine iff_of_false ?_ fun h => h.1 hperm
    rintro ⟨ev, hev, hwrote⟩
    exact hw ev hev hwrote
  | cons port rest =>
    -- the first operation is the frontend of the port visited first
    have hne : svc.portList ≠ [] := by
      intro hnil
      rw [horder, hnil] at hperm
      exact absurd (List.perm_nil.mp hperm) (by simp)
    rw [appendScript_cons, appendPortOps, List.cons_append, exec_wrote_iff hw]
    exact ⟨fun h => ⟨hne, h⟩, And.right⟩

theorem appendService_wrote_iff (hm : w.mgr.maps.NonNil)
    (hw : ∀ ev ∈ w.journal, ¬ WroteFrontend ev) (svc : Service) :
    (∃ ev ∈ ((appendService env svc).run w).2.journal, WroteFrontend ev) ↔
      svc.portList ≠ [] ∧ svc.Addressable ∧ env.fault w.journal.length = none := by
  rcases appendService_cases env hm svc with ⟨set, st, hset, haddr, hx, hrun⟩ | ⟨p, hbad, hrun⟩ |
    ⟨set, e, st, hset, haddr, hx, hrun⟩
  · rw [and_iff_right haddr, ← appendScript_wrote_iff hw hset, hrun, hx]
    rfl
  · -- nothing was written, for lack of ports or of an address
    rw [hrun]
    refine iff_of_false ?_ ?_
    · rintro ⟨ev, hev, hwrote⟩
      exact hw ev hev hwrote
    · rintro ⟨hne, haddr, -⟩
      rcases hbad with hnone | hnot
      · exact hne (by rw [Service.portList, hnone])
      · exact hnot haddr
  · rw [and_iff_right haddr, ← appendScript_wrote_iff hw hset, hrun, hx]
    rfl

/-- **When an update writes a frontend**, as a condition on what it is called with. -/
theorem updateService_wrote_iff {s : ServiceManager} (hm : s.maps.NonNil) (svc : Service) :
    (∃ ev ∈ (s.invoke env (.updateService svc)).2.journal, WroteFrontend ev) ↔
      WritesFrontend s env svc := by
  have hempty : ∀ ev ∈ (⟨s, []⟩ : World).journal, ¬ WroteFrontend ev :=
    fun ev hev => absurd hev List.not_mem_nil
  have hclean : (⟨s, []⟩ : World).Clean := fun ev hev => absurd hev List.not_mem_nil
  have hinv : (s.invoke env (.updateService svc)).2 = ((updateService env svc).run ⟨s, []⟩).2 :=
    Go.run_discard_snd _ _
  rw [hinv, WritesFrontend]
  cases hlive : s.services svc.serviceKey with
  | none =>
    rw [updateService_run_of_absent hlive, Go.run_bind_pure_snd,
      appendService_wrote_iff (w := ⟨s, []⟩) hm hempty]
    simp [clearsIn_of_absent hlive]
  | some old =>
    rw [updateService_run_of_live hlive]
    have hnot := @deleteService_not_wrote env ⟨s, []⟩ hm hempty old.serviceKey
    rcases @deleteService_outcome ⟨s, []⟩ env hm hclean old.serviceKey with
      ⟨hnone, hdel⟩ | ⟨d, w₁, hd, hcan, hdel, -, -, -, hm₁, hlen₁⟩ |
      ⟨d, p, w₁, hd, hcannot, hdel, -⟩
    · rw [Go.run_bind_ret hdel, Go.run_bind_pure_snd,
        appendService_wrote_iff (w := ⟨s, []⟩) hm hempty]
      simp [clearsIn_of_missing hlive hnone]
    · rw [hdel] at hnot
      -- the append starts after the operations of the deletion
      rw [Go.run_bind_ret hdel, Go.run_bind_pure_snd, appendService_wrote_iff hm₁ hnot, hlen₁]
      have hcan : CanDelete s.maps env 0 d := hcan
      simp [clearsIn_of_live hlive hd, hcan]
    · rw [hdel] at hnot
      rw [Go.run_bind_panic hdel]
      refine iff_of_false ?_ ?_
      · rintro ⟨ev, hev, hwrote⟩
        exact hnot ev hev hwrote
      · rintro ⟨-, -, n, hn, -⟩
        exact hcannot ((clearsIn_of_live hlive hd).mp hn).1

end Calls

/-! ### Scripts -/

/-- Deletions leave bare maps bare at every point, and write no frontend. -/
theorem exec_deletes_bare (fault : ℕ → Option MapError) {m : Maps} (hbare : Bare m)
    {ops : List MapOp} (hops : ∀ op ∈ ops, op.IsDelete) :
    Bare (bpfMachine.exec fault ⟨m, []⟩ ops).2.mem ∧
    ∀ ev ∈ (bpfMachine.exec fault ⟨m, []⟩ ops).2.journal,
      Bare (bpfMachine.after ev) ∧ ¬ WroteFrontend ev := by
  have hkeeps : ∀ op ∈ ops, ∀ m, Bare m → Bare (bpfMachine.apply m op) :=
    fun op hop m hm => hm.apply_isDelete (hops op hop)
  refine ⟨exec_invariant hkeeps hbare, fun ev hev => ⟨?_, ?_⟩⟩
  · exact ((exec_points hkeeps hbare ev hev).resolve_left List.not_mem_nil).2
  · exact exec_deletes_not_wrote (fun ev hev => absurd hev List.not_mem_nil) hops ev hev

/-- Deletions followed by a first frontend write: the write never succeeded and
everything stayed bare, or it succeeded on bare maps. -/
theorem exec_deletes_then_write (fault : ℕ → Option MapError) {m : Maps} (hbare : Bare m)
    {opsD more : List MapOp} (hD : ∀ op ∈ opsD, op.IsDelete) (k : Service4Key)
    (v : Service4Value) :
    (Bare (bpfMachine.exec fault ⟨m, []⟩ (opsD ++ .updateService k v :: more)).2.mem ∧
      ∀ ev ∈ (bpfMachine.exec fault ⟨m, []⟩ (opsD ++ .updateService k v :: more)).2.journal,
        Bare (bpfMachine.after ev) ∧ ¬ WroteFrontend ev) ∨
    ∃ m', Bare m' ∧ (⟨.updateService k v, m', none⟩ : MapEvent) ∈
      (bpfMachine.exec fault ⟨m, []⟩ (opsD ++ .updateService k v :: more)).2.journal := by
  obtain ⟨hmem, hevents⟩ := exec_deletes_bare fault hbare hD
  -- the write is reached only if all deletions went through
  rw [exec_append]
  rcases hx : bpfMachine.exec fault ⟨m, []⟩ opsD with ⟨_ | e, st⟩
  · rw [hx] at hmem hevents
    cases hv : bpfMachine.verdict fault st.journal.length st.mem (.updateService k v) with
    | some e =>
      refine Or.inl ?_
      simp only [exec_cons_some (issue_some hv)]
      refine ⟨hmem, fun ev hev => ?_⟩
      rcases List.mem_append.mp hev with hev | hev
      · exact hevents ev hev
      · obtain rfl := List.mem_singleton.mp hev
        exact ⟨hmem, fun h => absurd h.1 (by simp)⟩
    | none =>
      refine Or.inr ⟨st.mem, hmem, ?_⟩
      simp only [exec_cons_none (issue_none hv)]
      exact mem_exec_journal (List.mem_append_right _ (List.mem_singleton.mpr rfl)) more
  · rw [hx] at hmem hevents
    exact Or.inl ⟨hmem, hevents⟩

/-! ### Steps -/

/-- **Everything a call can do to bare maps**: they are bare at all its points, and it
writes no frontend unless for a service without endpoints; or it writes one for a
service with endpoints, at a point where integrity is lost. -/
theorem bare_step_cases {s : ServiceManager} (hbare : Bare s.maps) (l : Invocation)
    (hfits : l.call.Fits) :
    ((Bare (s.invoke l.env l.call).2.mgr.maps ∧
        ∀ ev ∈ (s.invoke l.env l.call).2.journal, Bare (bpfMachine.after ev)) ∧
      ∀ svc, l.call = .updateService svc → svc.endpoints ≠ [] →
        ∀ ev ∈ (s.invoke l.env l.call).2.journal, ¬ WroteFrontend ev) ∨
    ∃ svc, l.call = .updateService svc ∧ svc.endpoints ≠ [] ∧
      ∃ ev ∈ (s.invoke l.env l.call).2.journal,
        WroteFrontend ev ∧ ¬ Integrity (bpfMachine.after ev) := by
  obtain ⟨opsD, opsA, hD, hA, hlog⟩ := invoke_log l.env hbare.nonNil hfits.updateOrDelete
  have hmem : (s.invoke l.env l.call).2.mgr.maps = _ := congrArg Log.mem hlog
  have hjournal : (s.invoke l.env l.call).2.journal = _ := congrArg Log.journal hlog
  have hdel : ∀ op ∈ opsD, op.IsDelete := by
    rcases hD with rfl | ⟨key, old, order, -, -, rfl⟩
    · exact fun op hop => absurd hop List.not_mem_nil
    · exact isDelete_deleteScript old order
  rw [hmem, hjournal]
  rcases hA with rfl | ⟨svc, id, order, hcall, -, rfl⟩
  · -- nothing but deletions
    obtain ⟨hbare', hevents⟩ := exec_deletes_bare l.env.fault hbare hdel
    rw [List.append_nil]
    exact Or.inl ⟨⟨hbare', fun ev hev => (hevents ev hev).1⟩,
      fun svc _ _ ev hev => (hevents ev hev).2⟩
  by_cases hidle : svc.endpoints = []
  · -- every operation of the script keeps the maps bare
    have hops : ∀ op ∈ opsD ++ appendScript { svc with serviceId := id } order, ∀ m, Bare m →
        Bare (bpfMachine.apply m op) := by
      intro op hop m hm
      rcases List.mem_append.mp hop with hop | hop
      · exact hm.apply_isDelete (hdel op hop)
      · obtain ⟨k, v, rfl, hv⟩ := mem_appendScript_idle (by exact hidle) hop
        exact hm.apply_updateService hv
    refine Or.inl ⟨⟨exec_invariant hops hbare, fun ev hev => ?_⟩, fun svc' hcall' hne => ?_⟩
    · exact ((exec_points hops hbare ev hev).resolve_left List.not_mem_nil).2
    · obtain rfl := Call.updateService.inj (hcall.symm.trans hcall')
      exact absurd hidle hne
  · -- the first port of the order decides: its frontend is the first write
    cases order with
    | nil =>
      obtain ⟨hbare', hevents⟩ := exec_deletes_bare l.env.fault hbare hdel
      rw [show appendScript { svc with serviceId := id } [] = [] from rfl, List.append_nil]
      exact Or.inl ⟨⟨hbare', fun ev hev => (hevents ev hev).1⟩,
        fun svc _ _ ev hev => (hevents ev hev).2⟩
    | cons port rest =>
      rw [appendScript_cons, appendPortOps, List.cons_append]
      rcases exec_deletes_then_write l.env.fault hbare hdel
        (Service.frontendKey { svc with serviceId := id } port)
        (Service.frontendValue { svc with serviceId := id }) with
        ⟨hbare', hevents⟩ | ⟨m', hm', hev⟩
      · exact Or.inl ⟨⟨hbare', fun ev hev => (hevents ev hev).1⟩,
          fun svc _ _ ev hev => (hevents ev hev).2⟩
      · refine Or.inr ⟨svc, hcall, hidle, _, hev, ⟨rfl, _, _, rfl⟩, ?_⟩
        rw [hcall] at hfits
        exact hm'.not_integrity_updateService
          (count_ne_zero (List.length_pos_iff.mpr hidle) hfits)

/-- **Exactly when the data path never sees a dangling backend.** Over every run of
`UpdateService` and `DeleteService` calls on services with at most 65535 endpoints,
returning or panicking: every point of the run has integrity, so that `connect4` on it
finds the backend it chooses, if and only if no call of the run writes a frontend for
a service that has endpoints. -/
theorem integrity_iff_writesIdle {tr : List (Transition ServiceManager Invocation)}
    {s : ServiceManager}
    (hrun : Run (managerSystem Call.Fits) (newServiceManager Maps.empty) tr s) :
    (∀ t ∈ tr, ∀ m ∈ points t,
      Integrity m ∧ ∀ r ctx, (m.connect4 r ctx).1 ≠ .danglingBackend) ↔
    ∀ t ∈ tr, WritesIdle t := by
  refine hrun.forall_iff_forall (I := fun s => Bare s.maps)
    (P := fun s l s' => ∀ m ∈ points ⟨s, l, s'⟩,
      Integrity m ∧ ∀ r ctx, (m.connect4 r ctx).1 ≠ .danglingBackend)
    (Q := fun s l s' => WritesIdle ⟨s, l, s'⟩) bare_empty ?_ ?_
  · rintro a l b hbare ⟨hfits, rfl⟩
    rcases bare_step_cases hbare l hfits with ⟨⟨hpost, hevents⟩, hidle⟩ |
      ⟨svc, hcall, hne, ev, hev, hwrote, hlost⟩
    · -- the maps stayed bare, and nothing was written that the condition forbids
      refine iff_of_true (fun m hm => ?_) fun svc hcall hne hw => ?_
      swap
      · obtain ⟨ev, hev, hwrote⟩ := (updateService_wrote_iff hbare.nonNil svc).mpr hw
        exact hidle svc hcall hne ev (by rw [hcall]; exact hev) hwrote
      have hm : Bare m := by
        rcases List.mem_append.mp hm with hm | hm
        · rcases List.mem_cons.mp hm with rfl | hm
          · exact hbare
          · obtain ⟨ev, hev, rfl⟩ := List.mem_map.mp hm
            exact hevents ev hev
        · rw [List.mem_singleton.mp hm]
          exact hpost
      exact ⟨hm.integrity, hm.integrity.not_dangling⟩
    · -- both sides fail at the frontend that was written
      rw [hcall] at hev
      have hwrites := (updateService_wrote_iff hbare.nonNil svc).mp ⟨ev, hev, hwrote⟩
      refine iff_of_false (fun h => hlost (h _ ?_).1) fun h => h svc hcall hne hwrites
      rw [← hcall] at hev
      exact List.mem_append_left _ (List.mem_cons_of_mem _ (List.mem_map_of_mem hev))
  · rintro a l b hbare hP ⟨hfits, rfl⟩
    rcases bare_step_cases hbare l hfits with ⟨⟨hpost, -⟩, -⟩ | ⟨svc, -, -, ev, hev, -, hlost⟩
    · exact hpost
    · refine absurd (hP _ ?_).1 hlost
      exact List.mem_append_left _ (List.mem_cons_of_mem _ (List.mem_map_of_mem hev))

/-- The call that publishes the idle service on an empty manager. -/
def idleCall : Transition ServiceManager Invocation :=
  ⟨newServiceManager Maps.empty, ⟨.updateService idleService, .calm⟩,
    ((newServiceManager Maps.empty).invoke .calm (.updateService idleService)).2.mgr⟩

/-- Publishing a service without endpoints keeps integrity at every point. -/
theorem integrity_idleCall : WritesIdle idleCall ∧ ∀ m ∈ points idleCall, Integrity m := by
  have hrun : Run (managerSystem Call.Fits) (newServiceManager Maps.empty) ([] ++ [idleCall])
      idleCall.post :=
    .snoc (.nil _) ⟨(by decide : idleService.endpoints.length ≤ 65535), rfl⟩
  have hidle : WritesIdle idleCall := by
    intro svc hcall hne
    exact absurd (congrArg Service.endpoints (Call.updateService.inj hcall)) hne.symm
  refine ⟨hidle, fun m hm => ((integrity_iff_writesIdle hrun).mpr (fun t ht => ?_) idleCall
    (List.mem_singleton.mpr rfl) m hm).1⟩
  obtain rfl := List.mem_singleton.mp ht
  exact hidle

/-- The call that publishes the web service on an empty manager. -/
def webCall : Transition ServiceManager Invocation :=
  ⟨newServiceManager Maps.empty, ⟨.updateService webService, .calm⟩,
    ((newServiceManager Maps.empty).invoke .calm (.updateService webService)).2.mgr⟩

/-- Between the frontend and the backend of the web service a connection to it finds
the first and not the second. -/
theorem webCall_dangles :
    ∃ tr s, Run (managerSystem Call.Fits) (newServiceManager Maps.empty) tr s ∧
      ∃ t ∈ tr, ∃ m ∈ points t, ¬ Integrity m ∧
        ∃ r ctx, (m.connect4 r ctx).1 = .danglingBackend := by
  have hrun : Run (managerSystem Call.Fits) (newServiceManager Maps.empty) ([] ++ [webCall])
      webCall.post :=
    .snoc (.nil _) ⟨(by decide : webService.endpoints.length ≤ 65535), rfl⟩
  have hdangles : (((MapOp.updateService ⟨0x0a00600a, 0x5000, 6, 0⟩ ⟨1, 1⟩).apply
      Maps.empty).connect4 0 ⟨0x0a00600a, 0x5000, sockStream, 6⟩).1 = .danglingBackend := by decide
  refine ⟨_, _, hrun, webCall, List.mem_singleton.mpr rfl,
    (MapOp.updateService ⟨0x0a00600a, 0x5000, 6, 0⟩ ⟨1, 1⟩).apply Maps.empty, ?_,
    fun hint => hint.not_dangling _ _ hdangles, _, _, hdangles⟩
  exact List.mem_cons_of_mem _ List.mem_cons_self

end EProxy
