import EProxy.Manager.Script

/-!
# What the scripts do to the maps

The fold of a script is computed here once and for all, entry by entry: which
frontends and which backends are there after a whole `appendScript` or a whole
`deleteScript`, and when the kernel refuses none of its operations.

Updates are never refused. A script of deletions is accepted exactly when its keys
are pairwise different and all present (`accepts_deletes_iff`); for `deleteScript`
the visiting order of the ports does not matter (`accepts_deleteScript_iff`).
-/

namespace EProxy

open Framework Machine

/-! ### Operations on backends leave the frontends alone -/

/-- The operations on `endpointsMap`. -/
def MapOp.OnEndpoints : MapOp → Prop
  | .updateEndpoint _ _ | .deleteEndpoint _ => True
  | _ => False

theorem fold_frontend_of_onEndpoints {ops : List MapOp} (h : ∀ op ∈ ops, op.OnEndpoints)
    (m : Maps) (k : Service4Key) : (bpfMachine.fold m ops).frontend k = m.frontend k := by
  induction ops generalizing m with
  | nil => rfl
  | cons op ops ih =>
    rw [fold_cons, ih (fun op' h' => h op' (List.mem_cons_of_mem _ h'))]
    have hop := h op List.mem_cons_self
    cases op with
    | updateEndpoint e v => rfl
    | deleteEndpoint e => rfl
    | updateService k v => exact hop.elim
    | deleteService k => exact hop.elim

theorem onEndpoints_deleteEndpointOps (svc : Service) (index n : ℕ) :
    ∀ op ∈ deleteEndpointOps svc index n, op.OnEndpoints := by
  intro op hop
  obtain ⟨i, -, rfl⟩ := List.mem_map.mp hop
  exact trivial

theorem onEndpoints_appendEndpointOps (svc : Service) (port : Ports) (index : ℕ)
    (eps : List UInt32) : ∀ op ∈ appendEndpointOps svc port index eps, op.OnEndpoints := by
  intro op hop
  obtain ⟨e, -, rfl⟩ := List.mem_map.mp hop
  exact trivial

theorem fold_nonNil {m : Maps} (h : m.NonNil) (ops : List MapOp) :
    (bpfMachine.fold m ops).NonNil := by
  induction ops generalizing m with
  | nil => exact h
  | cons op ops ih => exact ih (apply_nonNil h op)

/-! ### Frontends -/

/-- One more key written with the same value. -/
private theorem ite_mem_cons {α β : Type} [DecidableEq α] (k x : α) (l : List α) (a b : β) :
    (if k ∈ l then a else if k = x then a else b) = if k ∈ x :: l then a else b := by
  simp only [List.mem_cons]
  by_cases hl : k ∈ l <;> by_cases hx : k = x <;> simp [hl, hx]

/-- The frontends after `AppendService`: those of the visited ports hold the value of
the service, the others are as before. -/
theorem fold_frontend_appendScript (svc : Service) (order : List Ports) {m : Maps}
    (hm : m.NonNil) (k : Service4Key) :
    (bpfMachine.fold m (appendScript svc order)).frontend k =
      if k ∈ order.map svc.frontendKey then some svc.frontendValue else m.frontend k := by
  -- on the ports still to visit; the endpoint loops in between touch no frontend
  induction order generalizing m with
  | nil => simp [appendScript]
  | cons port rest ih =>
    have hm' : (bpfMachine.fold m (appendPortOps svc port)).NonNil := fold_nonNil hm _
    rw [appendScript_cons, fold_append, ih hm', appendPortOps, fold_cons,
      fold_frontend_of_onEndpoints (onEndpoints_appendEndpointOps svc port 0 svc.endpoints),
      bpfMachine_apply, frontend_updateService _ _ _ hm, List.map_cons]
    exact ite_mem_cons k _ _ _ _

/-- The frontends after `DeleteService`: those of the visited ports are gone. -/
theorem fold_frontend_deleteScript (svc : Service) (order : List Ports) (m : Maps)
    (k : Service4Key) :
    (bpfMachine.fold m (deleteScript svc order)).frontend k =
      if k ∈ order.map svc.frontendKey then none else m.frontend k := by
  induction order generalizing m with
  | nil => simp [deleteScript]
  | cons port rest ih =>
    rw [deleteScript_cons, fold_append, ih, deletePortOps, fold_cons,
      fold_frontend_of_onEndpoints (onEndpoints_deleteEndpointOps svc 0 svc.endpoints.length),
      bpfMachine_apply, frontend_deleteService, List.map_cons]
    exact ite_mem_cons k _ _ _ _

/-! ### Backends -/

/-- The operations of a script that touch no backend key `e` leave it alone. -/
theorem fold_backend_of_forall {ops : List MapOp} {e : Endpoint4Key}
    (h : ∀ op ∈ ops, ∀ m : Maps, (op.apply m).backend e = m.backend e) (m : Maps) :
    (bpfMachine.fold m ops).backend e = m.backend e := by
  induction ops generalizing m with
  | nil => rfl
  | cons op ops ih =>
    rw [fold_cons, ih fun op' h' => h op' (List.mem_cons_of_mem _ h')]
    exact h op List.mem_cons_self m

/-- The endpoint loop of `AppendService` writes its own positions only. -/
theorem fold_backend_appendEndpointOps_other (svc : Service) (port : Ports) (eps : List UInt32)
    (index : ℕ) {e : Endpoint4Key}
    (he : ∀ j, index + 1 ≤ j → j ≤ index + eps.length → e ≠ ⟨slot svc.serviceId j⟩) (m : Maps) :
    (bpfMachine.fold m (appendEndpointOps svc port index eps)).backend e = m.backend e := by
  refine fold_backend_of_forall (fun op hop m' => ?_) m
  obtain ⟨⟨eip, j⟩, hj, rfl⟩ := List.mem_map.mp hop
  have hlo := List.le_snd_of_mem_zipIdx hj
  have hup := List.snd_lt_add_of_mem_zipIdx hj
  simp only at hlo hup
  exact backend_updateEndpoint_of_ne _ _ (he j hlo (by omega))

/-- The backends after the endpoint loop of `AppendService`, for positions that fit
the lower half of a slot. Position `index + 1 + i` holds the `i`-th endpoint. -/
theorem fold_backend_appendEndpointOps (svc : Service) (port : Ports) (eps : List UInt32)
    (index : ℕ) (hfit : index + eps.length < 65536) {m : Maps} (hm : m.NonNil) (i : ℕ)
    (hi : i < eps.length) :
    (bpfMachine.fold m (appendEndpointOps svc port index eps)).backend
        ⟨slot svc.serviceId (index + 1 + i)⟩ = some (backendValue eps[i] port) := by
  induction eps generalizing index i m with
  | nil => exact absurd hi (Nat.not_lt_zero _)
  | cons e rest ih =>
    rw [List.length_cons] at hfit hi
    rw [appendEndpointOps_cons, fold_cons, bpfMachine_apply]
    cases i with
    | succ i =>
      have hrec := ih (index + 1) (by omega) (apply_nonNil hm
        (.updateEndpoint ⟨slot svc.serviceId (index + 1)⟩ (backendValue e port))) i (by omega)
      rw [show index + 1 + (i + 1) = index + 1 + 1 + i by omega]
      exact hrec
    | zero =>
      -- the rest of the loop writes later positions only
      rw [fold_backend_appendEndpointOps_other]
      · rw [backend_updateEndpoint _ _ _ hm]
        exact if_pos rfl
      · intro j h₁ h₂ heq
        have hj := (slot_inj (by omega) (by omega) (Endpoint4Key.mk.inj heq)).2
        omega

/-- **The last port wins.** After `AppendService` every slot of the service holds its
endpoint with the target port of the port visited last. -/
theorem fold_backend_appendScript (svc : Service) (order : List Ports) (last : Ports)
    (hfit : svc.endpoints.length < 65536) {m : Maps} (hm : m.NonNil) (i : ℕ)
    (hi : i < svc.endpoints.length) :
    (bpfMachine.fold m (appendScript svc (order ++ [last]))).backend
        ⟨slot svc.serviceId (i + 1)⟩ = some (backendValue svc.endpoints[i] last) := by
  have hsplit : appendScript svc (order ++ [last]) =
      appendScript svc order ++ appendPortOps svc last := by
    rw [appendScript, List.flatMap_append, List.flatMap_singleton]
    rfl
  -- whatever the ports before it wrote, the last one writes all positions again
  have h := fold_backend_appendEndpointOps svc last svc.endpoints 0 (by omega)
    (apply_nonNil (fold_nonNil hm (appendScript svc order))
      (.updateService (svc.frontendKey last) svc.frontendValue)) i hi
  rw [hsplit, fold_append, appendPortOps, fold_cons, bpfMachine_apply,
    show i + 1 = 0 + 1 + i by omega]
  exact h

/-- `AppendService` writes the positions of its service only. -/
theorem fold_backend_appendScript_other (svc : Service) (order : List Ports) {e : Endpoint4Key}
    (he : ∀ j, 1 ≤ j → j ≤ svc.endpoints.length → e ≠ ⟨slot svc.serviceId j⟩) (m : Maps) :
    (bpfMachine.fold m (appendScript svc order)).backend e = m.backend e := by
  induction order generalizing m with
  | nil => rfl
  | cons port rest ih =>
    rw [appendScript_cons, fold_append, ih, appendPortOps, fold_cons,
      fold_backend_appendEndpointOps_other svc port svc.endpoints 0
        (fun j h₁ h₂ => he j h₁ (by omega)), bpfMachine_apply, backend_updateService]

theorem fold_backend_deleteEndpointOps (svc : Service) (index n : ℕ) (m : Maps)
    (e : Endpoint4Key) :
    (bpfMachine.fold m (deleteEndpointOps svc index n)).backend e =
      if e ∈ (List.range' index n).map (fun i => ⟨slot svc.serviceId i⟩) then none
      else m.backend e := by
  induction n generalizing index m with
  | zero => simp [deleteEndpointOps]
  | succ n ih =>
    rw [deleteEndpointOps_succ, fold_cons, ih, bpfMachine_apply, backend_deleteEndpoint,
      List.range'_succ, List.map_cons]
    exact ite_mem_cons e _ _ _ _

/-- The backends after `DeleteService`: with a port to visit, positions `0` to `n - 1`
are gone. -/
theorem fold_backend_deleteScript (svc : Service) (order : List Ports) (m : Maps)
    (e : Endpoint4Key) :
    (bpfMachine.fold m (deleteScript svc order)).backend e =
      if order ≠ [] ∧ ∃ i < svc.endpoints.length, e = ⟨slot svc.serviceId i⟩ then none
      else m.backend e := by
  induction order generalizing m with
  | nil => simp [deleteScript]
  | cons port rest ih =>
    have hmem : e ∈ (List.range' 0 svc.endpoints.length).map (fun i => ⟨slot svc.serviceId i⟩) ↔
        ∃ i < svc.endpoints.length, e = ⟨slot svc.serviceId i⟩ := by
      rw [List.mem_map]
      refine exists_congr fun i => and_congr ?_ eq_comm
      rw [List.mem_range'_1]
      omega
    rw [deleteScript_cons, fold_append, ih, deletePortOps, fold_cons,
      fold_backend_deleteEndpointOps, bpfMachine_apply, backend_deleteService,
      if_congr hmem rfl rfl]
    -- every port deletes the same positions, so the later ones change nothing
    by_cases h : ∃ i < svc.endpoints.length, e = ⟨slot svc.serviceId i⟩
    · have hcons : port :: rest ≠ [] ∧ ∃ i < svc.endpoints.length, e = ⟨slot svc.serviceId i⟩ :=
        ⟨List.cons_ne_nil _ _, h⟩
      rw [if_pos h, if_pos hcons, ite_self]
    · rw [if_neg h, if_neg (fun hc => h hc.2), if_neg (fun hc => h hc.2)]

/-! ### Acceptance -/

/-- The deletions. -/
def MapOp.IsDelete : MapOp → Prop
  | .deleteService _ | .deleteEndpoint _ => True
  | _ => False

/-- The key of a deletion is there. -/
def MapOp.Present (m : Maps) : MapOp → Prop
  | .deleteService k => (m.frontend k).isSome
  | .deleteEndpoint e => (m.backend e).isSome
  | _ => True

theorem refuse_eq_none_iff (m : Maps) (op : MapOp) : op.refuse m = none ↔ op.Present m := by
  cases op <;> simp [MapOp.refuse, MapOp.Present, Option.isSome_iff_ne_none]

/-- A deletion takes its own key away and no other. -/
theorem present_apply_iff {op op' : MapOp} (h : op.IsDelete) (h' : op'.IsDelete) (m : Maps) :
    op'.Present (op.apply m) ↔ op' ≠ op ∧ op'.Present m := by
  cases op with
  | updateService k v => exact h.elim
  | updateEndpoint k v => exact h.elim
  | deleteService k =>
    cases op' with
    | updateService k v => exact h'.elim
    | updateEndpoint k v => exact h'.elim
    | deleteService k' =>
      by_cases hk : k' = k <;> simp [MapOp.Present, frontend_deleteService, hk]
    | deleteEndpoint e => simp [MapOp.Present]
  | deleteEndpoint e =>
    cases op' with
    | updateService k v => exact h'.elim
    | updateEndpoint k v => exact h'.elim
    | deleteService k => simp [MapOp.Present]
    | deleteEndpoint e' =>
      by_cases he : e' = e <;> simp [MapOp.Present, backend_deleteEndpoint, he]

/-- **A script of deletions** is accepted exactly when no key is named twice and every
key is there. -/
theorem accepts_deletes_iff {ops : List MapOp} (h : ∀ op ∈ ops, op.IsDelete) (m : Maps) :
    bpfMachine.Accepts m ops ↔ ops.Nodup ∧ ∀ op ∈ ops, op.Present m := by
  induction ops generalizing m with
  | nil => simp [Accepts]
  | cons op ops ih =>
    have hop : op.IsDelete := h op List.mem_cons_self
    have hops : ∀ op' ∈ ops, op'.IsDelete := fun op' h' => h op' (List.mem_cons_of_mem _ h')
    -- after the first deletion the others still find their keys if none is the same
    have hpres : (∀ op' ∈ ops, op'.Present (op.apply m)) ↔
        op ∉ ops ∧ ∀ op' ∈ ops, op'.Present m := by
      constructor
      · intro hall
        exact ⟨fun hmem => ((present_apply_iff hop hop m).mp (hall op hmem)).1 rfl,
          fun op' h' => ((present_apply_iff hop (hops op' h') m).mp (hall op' h')).2⟩
      · rintro ⟨hnot, hall⟩ op' h'
        exact (present_apply_iff hop (hops op' h') m).mpr
          ⟨fun heq => hnot (heq ▸ h'), hall op' h'⟩
    change bpfMachine.refuse m op = none ∧ bpfMachine.Accepts (bpfMachine.apply m op) ops ↔ _
    rw [ih hops, bpfMachine_refuse, bpfMachine_apply, refuse_eq_none_iff, hpres,
      List.nodup_cons, List.forall_mem_cons]
    tauto

theorem isDelete_deleteScript (svc : Service) (order : List Ports) :
    ∀ op ∈ deleteScript svc order, op.IsDelete := by
  intro op hop
  obtain ⟨port, -, hop⟩ := List.mem_flatMap.mp hop
  rcases List.mem_cons.mp hop with rfl | hop
  · exact trivial
  · obtain ⟨i, -, rfl⟩ := List.mem_map.mp hop
    exact trivial

/-- The keys `DeleteService` removes are pairwise different and all present. -/
def Deletable (m : Maps) (svc : Service) : Prop :=
  (deleteScript svc svc.portList).Nodup ∧ ∀ op ∈ deleteScript svc svc.portList, op.Present m

/-- Whether `DeleteService` runs through does not depend on the visiting order. -/
theorem accepts_deleteScript_iff {svc : Service} {order : List Ports}
    (hperm : order.Perm svc.portList) (m : Maps) :
    bpfMachine.Accepts m (deleteScript svc order) ↔ Deletable m svc := by
  have hscript : (deleteScript svc order).Perm (deleteScript svc svc.portList) :=
    hperm.flatMap_right _
  rw [accepts_deletes_iff (isDelete_deleteScript svc order), hscript.nodup_iff]
  exact and_congr_right fun _ => forall_congr' fun op => imp_congr_left hscript.mem_iff

/-- Every operation of `AppendService`, through whatever handles. -/
theorem mem_appendScriptOn {m₀ : Maps} {svc : Service} {order : List Ports} {op : MapOp}
    (h : op ∈ appendScriptOn m₀ svc order) :
    ∃ port ∈ order, op = .updateService (svc.frontendKey port) svc.frontendValue ∨
      ∃ e ∈ svc.endpoints.zipIdx 1,
        op = .updateEndpoint ⟨slot svc.serviceId e.2⟩ (backendValue e.1 port) := by
  obtain ⟨port, hport, hop⟩ := List.mem_flatMap.mp h
  refine ⟨port, hport, ?_⟩
  unfold appendPortOpsOn at hop
  split at hop
  · exact absurd hop List.not_mem_nil
  · rcases List.mem_cons.mp hop with rfl | hop
    · exact Or.inl rfl
    · split at hop
      · exact absurd hop List.not_mem_nil
      · obtain ⟨e, he, rfl⟩ := List.mem_map.mp hop
        exact Or.inr ⟨e, he, rfl⟩

/-- Updates are never refused. -/
theorem accepts_appendScriptOn (m₀ : Maps) (svc : Service) (order : List Ports) (m : Maps) :
    bpfMachine.Accepts m (appendScriptOn m₀ svc order) := by
  refine accepts_of_forall (fun op hop m => ?_) m
  obtain ⟨port, -, rfl | ⟨e, -, rfl⟩⟩ := mem_appendScriptOn hop
  · rfl
  · rfl

theorem accepts_appendScript (svc : Service) (order : List Ports) (m : Maps) :
    bpfMachine.Accepts m (appendScript svc order) := by
  rw [← appendScriptOn_of_nonNil Maps.nonNil_empty]
  exact accepts_appendScriptOn _ svc order m

end EProxy
