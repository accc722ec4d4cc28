import EProxy.Framework.Table
import EProxy.Kubernetes.Api

/-!
# `pkg/kubernetes/informers`

An informer keeps a store of the objects it has heard of, under the keys of
`cache.MetaNamespaceKeyFunc`, and tells a handler about each change after it has made
it. That an object is stored under its own key is part of `Store`. The listers of the
controller read the stores: `Store.get` asks for namespace, `/` and name, and since
names contain no `/` the object it finds is of that namespace and of that name
(`Store.get_eq_some`).

A `Delta` is a change. A deletion that the watch has missed arrives as a tombstone,
`cache.DeletedFinalStateUnknown`, which carries the key of the object.
-/

namespace EProxy

open Framework

/-- What the stores need to know of an object. -/
class Object (α : Type) where
  ns : α → Name
  name : α → Name
  namespaced : ∀ o, (ns o).text ≠ ""

instance : Object Api.Service := ⟨Api.Service.ns, Api.Service.name, Api.Service.namespaced⟩

instance : Object Api.EndpointSlice :=
  ⟨Api.EndpointSlice.ns, Api.EndpointSlice.name, Api.EndpointSlice.namespaced⟩

variable {α : Type} [Object α]

/-- `cache.MetaNamespaceKeyFunc` of an object. -/
def Object.key (o : α) : String :=
  if (ns o).text = "" then (name o).text else (ns o).text ++ "/" ++ (name o).text

theorem Object.key_eq (o : α) : Object.key o = (ns o).text ++ "/" ++ (name o).text :=
  if_neg (namespaced o)

/-- `cache.Indexer`: objects under their own keys. -/
structure Store (α : Type) [Object α] where
  objects : Table String α
  keyed : ∀ {k o}, objects k = some o → Object.key o = k

namespace Store

theorem ext {st st' : Store α} (h : st.objects = st'.objects) : st = st' := by
  cases st
  cases st'
  cases h
  rfl

/-- The store of an informer that has heard nothing. -/
def empty : Store α := ⟨Table.empty, fun h => absurd h (by simp)⟩

/-- `Indexer.Add` and `Indexer.Update`. -/
def put (st : Store α) (o : α) : Store α where
  objects := st.objects.set (Object.key o) o
  keyed := by
    intro k x h
    rw [Table.set_apply] at h
    split at h
    · next hk => rw [hk, Option.some.inj h]
    · exact st.keyed h

/-- `Indexer.Delete`. -/
def remove (st : Store α) (key : String) : Store α where
  objects := st.objects.erase key
  keyed := by
    intro k x h
    rw [Table.erase_apply] at h
    split at h
    · exact absurd h (by simp)
    · exact st.keyed h

/-- `Lister.Get` in a namespace. -/
def get (st : Store α) (ns name : String) : Option α := st.objects (ns ++ "/" ++ name)

theorem put_apply (st : Store α) (o : α) (k : String) :
    (st.put o).objects k = if k = Object.key o then some o else st.objects k :=
  Table.set_apply ..

theorem remove_apply (st : Store α) (key k : String) :
    (st.remove key).objects k = if k = key then none else st.objects k :=
  Table.erase_apply ..

/-- The lister finds objects of the namespace and of the name asked for. -/
theorem get_eq_some {st : Store α} {ns name : String} {o : α} (h : st.get ns name = some o) :
    (Object.ns o).text = ns ∧ (Object.name o).text = name := by
  have hkey := st.keyed h
  rw [Object.key_eq] at hkey
  exact Name.slash_inj hkey

end Store

/-- A change of a store. Additions and updates are not told apart by the handlers the
controller registers. -/
inductive Delta (α : Type) where
  | set (o : α)
  | deleted (o : α)
  | deletedFinalStateUnknown (key : String)

/-- The part of `Process` that changes the store. -/
def Store.process (st : Store α) : Delta α → Store α
  | .set o => st.put o
  | .deleted o => st.remove (Object.key o)
  | .deletedFinalStateUnknown key => st.remove key

/-- The key of the object a change is about. -/
def Delta.key : Delta α → String
  | .set o | .deleted o => Object.key o
  | .deletedFinalStateUnknown key => key

/-- A change is about one object. -/
theorem Store.process_apply_of_ne (st : Store α) (d : Delta α) {k : String} (h : d.key ≠ k) :
    (st.process d).objects k = st.objects k := by
  cases d with
  | set o => exact (put_apply st o k).trans (if_neg h.symm)
  | deleted o => exact (remove_apply st _ k).trans (if_neg h.symm)
  | deletedFinalStateUnknown key => exact (remove_apply st key k).trans (if_neg h.symm)

/-- **A change that changes nothing** can be told of every object: it is stored once more, or
deleted once more. -/
theorem Store.exists_process_eq (st : Store α) (o : α) :
    ∃ d : Delta α, st.process d = st ∧
      ((d = .deleted o) ∨ ∃ o', d = .set o' ∧ Object.key o' = Object.key o ∧
        st.objects (Object.key o) = some o') := by
  cases hfound : st.objects (Object.key o) with
  | none => exact ⟨.deleted o, Store.ext (Table.erase_of_absent hfound), Or.inl rfl⟩
  | some o' =>
    have hkey := st.keyed hfound
    refine ⟨.set o', Store.ext (funext fun k => ?_), Or.inr ⟨o', rfl, hkey, rfl⟩⟩
    rw [Store.process, Store.put_apply, hkey]
    split
    · next hk => rw [hk, hfound]
    · rfl

end EProxy
