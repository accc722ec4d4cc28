import EProxy.Bpf.Types
import EProxy.Framework.Journal

/-!
# The two BPF maps as a machine of atomic operations

`*ebpf.Map` is a handle on a kernel hash map; the handle may be nil. The four
operations the control plane performs are each one atomic step of the kernel. A
deletion of an absent key is refused with `ErrKeyNotExist`; whatever else may go
wrong (the map is full, memory is short, the handle is closed) is left to the fault
pattern of `Framework.Machine`.

No error of this package is one of the sentinels of `pkg/utils/set`, so `MapError`
has no case for them.
-/

namespace EProxy

open Framework

/-- The errors of `github.com/cilium/ebpf`. -/
inductive MapError where
  | errKeyNotExist
  | errno (code : ℕ)
  deriving DecidableEq

/-- The maps a `ServiceManager` writes to; `none` is a nil handle. -/
structure Maps where
  serviceMap : Option (Table Service4Key Service4Value)
  endpointsMap : Option (Table Endpoint4Key Endpoint4Value)

/-- The operations on the maps. -/
inductive MapOp where
  | updateService (key : Service4Key) (value : Service4Value)
  | deleteService (key : Service4Key)
  | updateEndpoint (key : Endpoint4Key) (value : Endpoint4Value)
  | deleteEndpoint (key : Endpoint4Key)
  deriving DecidableEq

namespace Maps

/-- The entry of `serviceMap` under a key. -/
def frontend (m : Maps) (k : Service4Key) : Option Service4Value :=
  m.serviceMap.bind fun t => t k

/-- The entry of `endpointsMap` under a key. -/
def backend (m : Maps) (k : Endpoint4Key) : Option Endpoint4Value :=
  m.endpointsMap.bind fun t => t k

/-- Both handles are set. -/
structure NonNil (m : Maps) : Prop where
  service : m.serviceMap.isSome
  endpoints : m.endpointsMap.isSome

theorem NonNil.serviceMap_isNone {m : Maps} (h : m.NonNil) : m.serviceMap.isNone = false := by
  rw [Option.isNone_eq_false_iff]; exact h.service

theorem NonNil.endpointsMap_isNone {m : Maps} (h : m.NonNil) : m.endpointsMap.isNone = false := by
  rw [Option.isNone_eq_false_iff]; exact h.endpoints

/-- The handles of `m` are set where those of `m₀` are. -/
structure SameHandles (m₀ m : Maps) : Prop where
  service : m.serviceMap.isNone = m₀.serviceMap.isNone
  endpoints : m.endpointsMap.isNone = m₀.endpointsMap.isNone

/-- Two handles on empty maps. -/
def empty : Maps := ⟨some Table.empty, some Table.empty⟩

theorem nonNil_empty : empty.NonNil := ⟨rfl, rfl⟩

@[simp] theorem frontend_empty (k : Service4Key) : empty.frontend k = none := rfl

end Maps

/-- An operation finds its key absent. -/
def MapOp.refuse (m : Maps) : MapOp → Option MapError
  | .updateService _ _ => none
  | .deleteService k => if (m.frontend k).isSome then none else some .errKeyNotExist
  | .updateEndpoint _ _ => none
  | .deleteEndpoint k => if (m.backend k).isSome then none else some .errKeyNotExist

/-- The effect of an operation. -/
def MapOp.apply (m : Maps) : MapOp → Maps
  | .updateService k v => { m with serviceMap := m.serviceMap.map fun t => t.set k v }
  | .deleteService k => { m with serviceMap := m.serviceMap.map fun t => t.erase k }
  | .updateEndpoint k v => { m with endpointsMap := m.endpointsMap.map fun t => t.set k v }
  | .deleteEndpoint k => { m with endpointsMap := m.endpointsMap.map fun t => t.erase k }

/-- The kernel's side of the two maps. -/
def bpfMachine : Machine Maps MapOp MapError where
  refuse := MapOp.refuse
  apply := MapOp.apply

@[simp] theorem bpfMachine_apply (m : Maps) (op : MapOp) : bpfMachine.apply m op = op.apply m :=
  rfl

@[simp] theorem bpfMachine_refuse (m : Maps) (op : MapOp) :
    bpfMachine.refuse m op = op.refuse m := rfl

/-- The events a call leaves in its journal. -/
abbrev MapEvent := Event Maps MapOp MapError

/-! ### What each operation does to the entries -/

section Apply

variable (m : Maps) (k k' : Service4Key) (v : Service4Value) (e e' : Endpoint4Key)
  (w : Endpoint4Value)

theorem apply_nonNil {m : Maps} (h : m.NonNil) (op : MapOp) : (op.apply m).NonNil := by
  obtain ⟨hs, he⟩ := h
  cases op <;> exact ⟨by simpa [MapOp.apply] using hs, by simpa [MapOp.apply] using he⟩

theorem apply_sameHandles {m₀ m : Maps} (h : m₀.SameHandles m) (op : MapOp) :
    m₀.SameHandles (op.apply m) := by
  obtain ⟨hs, he⟩ := h
  cases op <;> exact ⟨by simpa [MapOp.apply] using hs, by simpa [MapOp.apply] using he⟩

theorem frontend_updateService {m : Maps} (h : m.NonNil) :
    ((MapOp.updateService k v).apply m).frontend k' = if k' = k then some v else m.frontend k' := by
  obtain ⟨t, ht⟩ := Option.isSome_iff_exists.mp h.service
  simp [MapOp.apply, Maps.frontend, ht, Table.set_apply]

theorem frontend_deleteService :
    ((MapOp.deleteService k).apply m).frontend k' = if k' = k then none else m.frontend k' := by
  cases ht : m.serviceMap <;> simp [MapOp.apply, Maps.frontend, ht, Table.erase_apply]

@[simp] theorem frontend_deleteEndpoint :
    ((MapOp.deleteEndpoint e).apply m).frontend k = m.frontend k := rfl

theorem backend_updateEndpoint {m : Maps} (h : m.NonNil) :
    ((MapOp.updateEndpoint e w).apply m).backend e' = if e' = e then some w else m.backend e' := by
  obtain ⟨t, ht⟩ := Option.isSome_iff_exists.mp h.endpoints
  simp [MapOp.apply, Maps.backend, ht, Table.set_apply]

variable {e e'} in
theorem backend_updateEndpoint_of_ne (h : e' ≠ e) :
    ((MapOp.updateEndpoint e w).apply m).backend e' = m.backend e' := by
  cases ht : m.endpointsMap <;> simp [MapOp.apply, Maps.backend, ht, Table.set_of_ne _ _ h]

theorem backend_deleteEndpoint :
    ((MapOp.deleteEndpoint e).apply m).backend e' = if e' = e then none else m.backend e' := by
  cases ht : m.endpointsMap <;> simp [MapOp.apply, Maps.backend, ht, Table.erase_apply]

@[simp] theorem backend_updateService :
    ((MapOp.updateService k v).apply m).backend e = m.backend e := rfl

@[simp] theorem backend_deleteService :
    ((MapOp.deleteService k).apply m).backend e = m.backend e := rfl

end Apply

end EProxy
