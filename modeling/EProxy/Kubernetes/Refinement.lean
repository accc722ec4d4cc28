import Mathlib.Data.Option.Basic
import EProxy.Kubernetes.Callbacks
import EProxy.Kubernetes.Informers

/-!
# The informers refine the stores

The handlers and the controller are modelled over a `Store`, a map of the objects
themselves with no pointers in it. This module connects that store to the informers as
they are: along every run of deltas that share nothing with the indexer, the indexer
holds pointers to what the store has (`View.refines_of_run`).

A `View` tells when a struct is what the controller reads as an API object. The
conversion drops fields, none of which is in the view: that is the law `custom`.
-/

namespace EProxy

open Framework

/-- **What the controller sees of a kind of object.** -/
structure View (α β : Type) [Resource α] [Object β] where
  reads : α → β → Prop
  key_eq : ∀ {v o}, reads v o → Resource.key v = Object.key o
  /-- The conversion drops nothing the controller reads. -/
  custom : ∀ {v o}, reads v o → reads (Resource.custom v) o

/-- The metadata is that of a namespaced object. -/
def ObjectMeta.Names (m : ObjectMeta) (ns name : Name) : Prop := m.ns = ns.text ∧ m.name = name.text

theorem ObjectMeta.Names.key {m : ObjectMeta} {ns name : Name} (h : m.Names ns name) :
    m.key = if ns.text = "" then name.text else ns.text ++ "/" ++ name.text := by
  rw [ObjectMeta.key, h.1, h.2]

/-- Services as the controller sees them. -/
def serviceView : View V1.Service Api.Service where
  reads v o := v.objectMeta.Names o.ns o.name ∧ v.clusterIP = o.clusterIP ∧ v.ports = o.ports
  key_eq h := h.1.key
  custom h := h

/-- Endpoint slices as the controller sees them. -/
def sliceView : View Discovery.EndpointSlice Api.EndpointSlice where
  reads v o := v.objectMeta.Names o.ns o.name ∧
    v.objectMeta.labels = o.labels.map (fun l => (l.1, l.2.text)) ∧
    v.objectMeta.deletionTimestamp = o.deletionTimestamp ∧
    v.endpoints = o.endpoints ∧ v.ports = o.ports
  key_eq h := h.1.key
  custom h := h

namespace View

variable {α β : Type} [Resource α] [Object β] (view : View α β)

/-- The indexer holds what the store has, and nothing else. -/
def Refines (st : Informer α) (store : Store β) : Prop :=
  ∀ k, Option.Rel (fun p o => view.reads p.2 o) (st.contents k) (store.objects k)

/-- What a delta is to the store. -/
inductive Stands (h : Heap α) : Cache.Delta → Delta β → Prop
  | set {type r v o} (hr : h.read r = some v) (hv : view.reads v o) :
      Stands h (.set type r) (.set o)
  | deleted {r v o} (hr : h.read r = some v) (hv : view.reads v o) :
      Stands h (.deleted (.object r)) (.deleted o)
  | tombstone {key obj} :
      Stands h (.deleted (.tombstone key obj)) (.deletedFinalStateUnknown key)

/-- The deltas of a run, each with the heap it was handled in. -/
def processed (tr : List (Transition (Informer α) (InformerLabel α))) :
    List (Heap α × Cache.Delta) :=
  tr.filterMap fun t =>
    match t.label with
    | .receive _ => none
    | .process d => some (t.pre.heap, d)

variable {view}

/-- A removal on both sides. -/
theorem Refines.erase {st st' : Informer α} {store : Store β} {key : String}
    (h : view.Refines st store) (hst : st'.contents = st.contents.erase key) :
    view.Refines st' (store.remove key) := by
  intro k
  rw [hst, Store.remove_apply, Table.erase_apply]
  split
  · exact .none
  · exact h k

/-- **One delta.** The indexer keeps up with the store. -/
theorem Refines.processDelta {st : Informer α} {store : Store β} {d : Cache.Delta} {δ : Delta β}
    (h : view.Refines st store) (howned : st.Owned) (hd : d.Allocated st.heap)
    (hu : Unshared st d) (hδ : view.Stands st.heap d δ) :
    view.Refines (st.processDelta d) (store.process δ) := by
  cases hδ with
  | @set type r v o hr hv =>
    intro k
    rw [Informer.contents_set howned hr hu, Store.process, Store.put_apply, Table.set_apply,
      view.key_eq hv]
    split
    · exact .some (view.custom hv)
    · exact h k
  | @deleted r v o hr hv =>
    -- both sides take the key from the object, read before it is overwritten
    have hkey : Informer.deletionKey st.heap (.object r) = Object.key o := by
      rw [Informer.deletionKey, hr]
      exact view.key_eq hv
    apply h.erase
    rw [Informer.contents_deleted howned hd hu, hkey]
  | tombstone =>
    apply h.erase
    rw [Informer.contents_deleted howned hd hu, Informer.deletionKey]

/-- **The informers refine the stores.** What a run of unshared deltas has done to the
indexer, the changes they are to the store have done to the store. -/
theorem refines_of_run {tr : List (Transition (Informer α) (InformerLabel α))} {st : Informer α}
    (h : Run (informerSystem α fun st d => Unshared st d ∧ ∃ δ, view.Stands st.heap d δ)
      .empty tr st) :
    ∃ deltas : List (Delta β),
      List.Forall₂ (fun p δ => view.Stands p.1 p.2 δ) (processed tr) deltas ∧
      view.Refines st (deltas.foldl Store.process .empty) := by
  -- the changes are collected along the run, one for each delta processed
  induction h with
  | nil =>
    refine ⟨[], .nil, fun k => ?_⟩
    rw [Informer.contents_of_none rfl]
    exact .none
  | @snoc a b tr l hrun hstep ih =>
    obtain ⟨deltas, hstands, hrel⟩ := ih
    have howned := (Informer.owned_of_run hrun).1
    cases l with
    | receive o =>
      obtain rfl : b = { a with heap := a.heap.alloc o } := hstep
      refine ⟨deltas, ?_, fun k => ?_⟩
      · rw [processed, List.filterMap_append]
        exact (List.append_nil _).symm ▸ hstands
      · rw [Informer.contents_receive howned]
        exact hrel k
    | process d =>
      obtain ⟨hd, ⟨hu, δ, hδ⟩, rfl⟩ := hstep
      refine ⟨deltas ++ [δ], ?_, ?_⟩
      · rw [processed, List.filterMap_append]
        exact List.rel_append hstands (.cons hδ .nil)
      · rw [List.foldl_concat]
        exact hrel.processDelta howned hd hu hδ

end View

end EProxy
