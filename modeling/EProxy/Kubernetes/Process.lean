import EProxy.Framework.Heap
import EProxy.Framework.System
import EProxy.Framework.Table
import EProxy.Kubernetes.Objects

/-!
# `Process`, with pointers

An informer's `Process` function handles the deltas of a batch one by one: it converts
the object of the delta, changes the indexer, and calls back. The conversion makes a new
object and overwrites the old one with zeros, in place, so it matters who else holds a
pointer to it; the objects therefore live in a heap here, and the indexer holds
references.

The indexer is the thread-safe store of client-go: items by key, and for each namespace
the keys of the objects in it. It keeps the second in step by asking the objects: what
a key has to be removed from is computed from the object that is stored under it at that
moment.

A delta that is not a deletion carries a pointer to an object; `DeltaFIFO` puts
tombstones into deletions only. The four types of the other deltas are treated alike.
`batchSystem` hands `Process` one batch after the other and lets the watch allocate objects
in between. `informerSystem` takes the deltas one by one, which is the system the invariants
are about; a run of batches is a run of it (`run_unbatch`).
-/

namespace EProxy

open Framework

namespace Cache

/-- `cache.DeltaType`, but for `Deleted`. -/
inductive DeltaType where
  | sync
  | added
  | updated
  | replaced
  deriving DecidableEq

/-- What a deletion carries: a pointer to an object, or a tombstone,
`cache.DeletedFinalStateUnknown`, with the last state known if there is one. -/
inductive Deleted where
  | object (r : Ref)
  | tombstone (key : String) (obj : Option Ref)
  deriving DecidableEq

/-- `cache.Delta`. -/
inductive Delta where
  | set (type : DeltaType) (r : Ref)
  | deleted (obj : Deleted)
  deriving DecidableEq

/-- The object of a delta, if it has one. -/
def Delta.ref : Delta → Option Ref
  | .set _ r | .deleted (.object r) => some r
  | .deleted (.tombstone _ obj) => obj

end Cache

/-- A call of the registered handler: the pointers it gets, with what they point to at
that moment. -/
inductive Callback (α : Type) where
  | onAdd (r : Ref) (o : α)
  | onUpdate (old : Ref) (oldObj : Option α) (r : Ref) (o : α)
  | onDelete (obj : Cache.Deleted) (key : String)

/-- The heap, the indexer of an informer and the callbacks it has issued. -/
structure Informer (α : Type) where
  heap : Heap α
  items : Table String Ref
  index : String → List String
  callbacks : List (Callback α)

/-- An informer with an empty indexer. -/
def Informer.empty {α : Type} : Informer α := ⟨.empty, .empty, fun _ => [], []⟩

variable {α : Type} [Resource α]

/-! ### `convertToCustomService` and `convertToCustomEndpointSlice` -/

/-- The conversion of a pointer: a new object, and zeros in the place of the old one. -/
def convert (h : Heap α) (r : Ref) : Ref × Heap α :=
  match h.read r with
  | some o =>
    -- `*concreteObj = v1.Service{}`, after the copy has been made
    (h.fresh, (h.alloc (Resource.custom o)).write r Resource.zero)
  | none => (r, h)

/-- The conversion of what a deletion carries. A tombstone is copied with its key; one
without an object of the informer's kind stays as it is. -/
def convertDeleted (h : Heap α) : Cache.Deleted → Cache.Deleted × Heap α
  | .object r => (.object (convert h r).1, (convert h r).2)
  | .tombstone key (some r) => (.tombstone key (some (convert h r).1), (convert h r).2)
  | .tombstone key none => (.tombstone key none, h)

namespace Informer

/-! ### The indexer -/

/-- `cache.MetaNamespaceIndexFunc` of a pointer. -/
def namespaceOf (h : Heap α) (r : Ref) : String := ((h.read r).map Resource.ns).getD ""

/-- `cache.DeletionHandlingMetaNamespaceKeyFunc` of what a deletion carries. -/
def deletionKey (h : Heap α) : Cache.Deleted → String
  | .object r => ((h.read r).map Resource.key).getD ""
  | .tombstone key _ => key

/-- Add a key to the list of a namespace. -/
def list (index : String → List String) (ns key : String) : String → List String :=
  Function.update index ns ((index ns).insert key)

/-- Remove a key from the list of a namespace. -/
def unlist (index : String → List String) (ns key : String) : String → List String :=
  Function.update index ns ((index ns).filter (· ≠ key))

/-- `deleteFromIndices` for what is stored under a key. -/
def unlistStored (st : Informer α) (key : String) : String → List String :=
  match st.items key with
  -- the stored object is asked for its namespace now, not when it was stored
  | some r => unlist st.index (namespaceOf st.heap r) key
  | none => st.index

/-- `Indexer.Add` and `Indexer.Update`. -/
def put (st : Informer α) (key : String) (r : Ref) : Informer α :=
  { st with
    items := st.items.set key r
    index := list (st.unlistStored key) (namespaceOf st.heap r) key }

/-- `Indexer.Delete`. -/
def delete (st : Informer α) (key : String) : Informer α :=
  { st with
    items := st.items.erase key
    index := st.unlistStored key }

/-! ### `Process` -/

/-- The pointer `r` to a converted object is put into the indexer. -/
def processSet (st : Informer α) (r : Ref) : Informer α :=
  match st.heap.read r with
  | none => st
  | some o =>
    match st.items (Resource.key o) with
    | some old =>
      -- `Get` found one: `Update`, then `OnUpdate(old, obj)`
      { st.put (Resource.key o) r with
        callbacks := st.callbacks ++ [.onUpdate old (st.heap.read old) r o] }
    | none =>
      -- `Add`, then `OnAdd(obj)`
      { st.put (Resource.key o) r with callbacks := st.callbacks ++ [.onAdd r o] }

/-- A converted object, or tombstone, is deleted from the indexer. -/
def processDeleted (st : Informer α) (obj : Cache.Deleted) : Informer α :=
  { st.delete (deletionKey st.heap obj) with
    callbacks := st.callbacks ++ [.onDelete obj (deletionKey st.heap obj)] }

/-- One turn of the loop of `Process`. -/
def processDelta (st : Informer α) : Cache.Delta → Informer α
  | .set _ r => { st with heap := (convert st.heap r).2 }.processSet (convert st.heap r).1
  | .deleted obj =>
    { st with heap := (convertDeleted st.heap obj).2 }.processDeleted
      (convertDeleted st.heap obj).1

/-- `Process`. -/
def process (st : Informer α) (deltas : List Cache.Delta) : Informer α :=
  deltas.foldl processDelta st

end Informer

/-! ### Runs -/

/-- The pointer of a delta, if any, points to an object. -/
def Cache.Delta.Allocated (d : Cache.Delta) (h : Heap α) : Prop :=
  ∀ r ∈ d.ref, (h.read r).isSome

omit [Resource α] in
theorem Cache.Delta.Allocated.read {type : Cache.DeltaType} {r : Ref} {h : Heap α}
    (hd : (Cache.Delta.set type r).Allocated h) : ∃ o, h.read r = some o :=
  Option.isSome_iff_exists.mp (hd r rfl)

/-- The watch decodes an object, or `Process` handles a delta. -/
inductive InformerLabel (α : Type) where
  | receive (o : α)
  | process (d : Cache.Delta)

/-- An informer with deltas among `allowed`, from an empty indexer. -/
def informerSystem (α : Type) [Resource α] (allowed : Informer α → Cache.Delta → Prop) :
    System (Informer α) (InformerLabel α) where
  init := .empty
  step st l st' :=
    match l with
    | .receive o => st' = { st with heap := st.heap.alloc o }
    | .process d => d.Allocated st.heap ∧ allowed st d ∧ st' = st.processDelta d

/-! ### What the conversion does to the heap -/

theorem convert_of_read {h : Heap α} {r : Ref} {o : α} (hr : h.read r = some o) :
    convert h r = (h.fresh, (h.alloc (Resource.custom o)).write r Resource.zero) := by
  rw [convert, hr]

/-- The new object is the projection of the old one. -/
theorem read_convert_fresh {h : Heap α} {r : Ref} {o : α} (hr : h.read r = some o) :
    (convert h r).2.read h.fresh = some (Resource.custom o) := by
  rw [convert_of_read hr]
  calc ((h.alloc (Resource.custom o)).write r Resource.zero).read h.fresh
      = (h.alloc (Resource.custom o)).read h.fresh :=
        Heap.read_write_of_ne _ _ (Heap.ne_fresh_of_read hr).symm
    _ = some (Resource.custom o) := Heap.read_alloc_fresh h _

/-- The heap after the conversion of a delta. -/
def Cache.Delta.heapAfter (d : Cache.Delta) (h : Heap α) : Heap α :=
  match d.ref with
  | some r => (convert h r).2
  | none => h

/-- **The conversion wipes the object of the delta**, whoever holds a pointer to it, and
no other. -/
theorem Cache.Delta.read_heapAfter (d : Cache.Delta) {h : Heap α} {r : Ref} {o : α}
    (hr : h.read r = some o) :
    (d.heapAfter h).read r = some (if d.ref = some r then Resource.zero else o) := by
  unfold heapAfter
  split
  · next r' hd =>
    rw [hd]
    cases hr' : h.read r' with
    | none =>
      -- nothing is converted
      have hne : r' ≠ r := by
        rintro rfl
        exact absurd (hr'.symm.trans hr) (by simp)
      rw [if_neg (by simpa using hne), convert, hr']
      exact hr
    | some o' =>
      have hold := Heap.read_alloc_of_read hr (Resource.custom o')
      rw [convert_of_read hr']
      by_cases hrr : r' = r
      · subst hrr
        rw [if_pos rfl]
        exact Heap.read_write_self hold _
      · rw [if_neg (by simpa using hrr)]
        exact (Heap.read_write_of_ne _ _ (Ne.symm hrr)).trans hold
  · next hd =>
    rw [if_neg (by simp [hd])]
    exact hr

namespace Informer

theorem namespaceOf_of_read {h : Heap α} {r : Ref} {o : α} (hr : h.read r = some o) :
    namespaceOf h r = Resource.ns o := by
  rw [namespaceOf, hr]
  rfl

/-- The key of a deletion is the same before and after the conversion. -/
theorem deletionKey_convertDeleted {h : Heap α} {obj : Cache.Deleted}
    (hd : (Cache.Delta.deleted obj).Allocated h) :
    deletionKey (convertDeleted h obj).2 (convertDeleted h obj).1 = deletionKey h obj := by
  cases obj with
  | object r =>
    obtain ⟨o, hr⟩ := Option.isSome_iff_exists.mp (hd r rfl)
    have hnew := read_convert_fresh hr
    rw [convertDeleted, deletionKey, deletionKey, hr]
    rw [show (convert h r).1 = h.fresh by rw [convert_of_read hr], hnew]
    exact Resource.key_custom o
  | tombstone key obj =>
    cases obj with
    | none => rfl
    | some r => rfl

/-! ### What a delta does -/

/-- The call of the handler for an object that has been put. -/
def setCallback (st : Informer α) (h : Heap α) (r : Ref) (o : α) : Callback α :=
  match st.items (Resource.key o) with
  | some old => .onUpdate old (h.read old) r o
  | none => .onAdd r o

/-- **A delta that is not a deletion** stores a projection of its object at a new
reference, under the key of the object. -/
theorem processDelta_set (st : Informer α) (type : Cache.DeltaType) {r : Ref} {o : α}
    (hr : st.heap.read r = some o) :
    st.processDelta (.set type r) =
      { heap := (convert st.heap r).2
        items := st.items.set (Resource.key o) st.heap.fresh
        index := list ({ st with heap := (convert st.heap r).2 }.unlistStored (Resource.key o))
          (Resource.ns o) (Resource.key o)
        callbacks := st.callbacks ++
          [st.setCallback (convert st.heap r).2 st.heap.fresh (Resource.custom o)] } := by
  have hnew := read_convert_fresh hr
  rw [processDelta, show (convert st.heap r).1 = st.heap.fresh by rw [convert_of_read hr],
    processSet]
  simp only [hnew]
  -- `Get` decides on the callback only: `Add` and `Update` do the same
  unfold setCallback
  split <;> simp [put, namespaceOf_of_read hnew]

/-- **A deletion** removes what is stored under its key. -/
theorem processDelta_deleted (st : Informer α) {obj : Cache.Deleted}
    (hd : (Cache.Delta.deleted obj).Allocated st.heap) :
    st.processDelta (.deleted obj) =
      { heap := (convertDeleted st.heap obj).2
        items := st.items.erase (deletionKey st.heap obj)
        index := { st with heap := (convertDeleted st.heap obj).2 }.unlistStored
          (deletionKey st.heap obj)
        callbacks := st.callbacks ++
          [.onDelete (convertDeleted st.heap obj).1 (deletionKey st.heap obj)] } := by
  rw [processDelta, processDeleted]
  simp only [deletionKey_convertDeleted hd]
  rfl

theorem items_set (st : Informer α) (type : Cache.DeltaType) {r : Ref} {o : α}
    (hr : st.heap.read r = some o) :
    (st.processDelta (.set type r)).items = st.items.set (Resource.key o) st.heap.fresh := by
  rw [processDelta_set st type hr]

theorem items_deleted (st : Informer α) {obj : Cache.Deleted}
    (hd : (Cache.Delta.deleted obj).Allocated st.heap) :
    (st.processDelta (.deleted obj)).items = st.items.erase (deletionKey st.heap obj) := by
  rw [processDelta_deleted st hd]

theorem heap_convertDeleted (h : Heap α) (obj : Cache.Deleted) :
    (convertDeleted h obj).2 = (Cache.Delta.deleted obj).heapAfter h := by
  cases obj with
  | object r => rfl
  | tombstone key obj =>
    cases obj with
    | none => rfl
    | some r => rfl

theorem index_set (st : Informer α) (type : Cache.DeltaType) {r : Ref} {o : α}
    (hr : st.heap.read r = some o) :
    (st.processDelta (.set type r)).index =
      list ({ st with heap := (Cache.Delta.set type r).heapAfter st.heap }.unlistStored
        (Resource.key o)) (Resource.ns o) (Resource.key o) := by
  rw [processDelta_set st type hr]
  rfl

theorem index_deleted (st : Informer α) {obj : Cache.Deleted}
    (hd : (Cache.Delta.deleted obj).Allocated st.heap) :
    (st.processDelta (.deleted obj)).index =
      { st with heap := (Cache.Delta.deleted obj).heapAfter st.heap }.unlistStored
        (deletionKey st.heap obj) := by
  rw [processDelta_deleted st hd, heap_convertDeleted]

/-- The heap after a delta. -/
theorem heap_processDelta (st : Informer α) {d : Cache.Delta} (hd : d.Allocated st.heap) :
    (st.processDelta d).heap = d.heapAfter st.heap := by
  cases d with
  | set type r =>
    obtain ⟨o, hr⟩ := hd.read
    rw [processDelta_set st type hr]
    rfl
  | deleted obj =>
    rw [processDelta_deleted st hd]
    exact heap_convertDeleted st.heap obj

/-! ### Who holds what -/

/-- **The indexer owns what it stores.** What it holds are pointers to objects, and no
two keys share one. -/
structure Owned (st : Informer α) : Prop where
  allocated : ∀ {k r}, st.items k = some r → ∃ o, st.heap.read r = some o
  unshared : ∀ {k k' r}, st.items k = some r → st.items k' = some r → k = k'

omit [Resource α] in
theorem Owned.ne_fresh {st : Informer α} (h : st.Owned) (k : String) :
    st.items k ≠ some st.heap.fresh := by
  intro hk
  obtain ⟨o, ho⟩ := h.allocated hk
  exact Heap.ne_fresh_of_read ho rfl

theorem Owned.processDelta {st : Informer α} (h : st.Owned) {d : Cache.Delta}
    (hd : d.Allocated st.heap) : (st.processDelta d).Owned := by
  -- what was allocated still is, whether it has been wiped or not
  have hkeep : ∀ {k r}, st.items k = some r → ∃ o, (d.heapAfter st.heap).read r = some o := by
    intro k r hk
    obtain ⟨o, ho⟩ := h.allocated hk
    exact ⟨_, d.read_heapAfter ho⟩
  have hheap := heap_processDelta st hd
  cases d with
  | set type r =>
    obtain ⟨o, hr⟩ := hd.read
    constructor
    · intro k x hk
      rw [items_set st type hr, Table.set_apply] at hk
      rw [hheap]
      split at hk
      · obtain rfl := Option.some.inj hk
        exact ⟨_, read_convert_fresh hr⟩
      · exact hkeep hk
    · intro k k' x hk hk'
      rw [items_set st type hr, Table.set_apply] at hk hk'
      -- a new reference is under one key, and an old one is not new
      split at hk <;> split at hk'
      · next h₁ h₂ => exact h₁.trans h₂.symm
      · exact absurd (hk'.trans hk.symm) (h.ne_fresh k')
      · exact absurd (hk.trans hk'.symm) (h.ne_fresh k)
      · exact h.unshared hk hk'
  | deleted obj =>
    constructor
    · intro k x hk
      rw [items_deleted st hd] at hk
      rw [hheap]
      exact hkeep (Table.of_erase hk)
    · intro k k' x hk hk'
      rw [items_deleted st hd] at hk hk'
      exact h.unshared (Table.of_erase hk) (Table.of_erase hk')

omit [Resource α] in
/-- The watch does not touch what the indexer holds. -/
theorem Owned.read_alloc {st : Informer α} (h : st.Owned) (o : α) {k : String} {r : Ref}
    (hk : st.items k = some r) : (st.heap.alloc o).read r = st.heap.read r := by
  obtain ⟨o', ho'⟩ := h.allocated hk
  rw [Heap.read_alloc_of_read ho', ho']

theorem Owned.step {allowed : Informer α → Cache.Delta → Prop} {st st' : Informer α}
    {l : InformerLabel α} (h : st.Owned) (hstep : (informerSystem α allowed).step st l st') :
    st'.Owned := by
  cases l with
  | receive o =>
    obtain rfl : st' = { st with heap := st.heap.alloc o } := hstep
    refine ⟨fun hk => ?_, h.unshared⟩
    obtain ⟨o', ho'⟩ := h.allocated hk
    exact ⟨o', (h.read_alloc o hk).trans ho'⟩
  | process d =>
    obtain ⟨hd, -, rfl⟩ := hstep
    exact h.processDelta hd

theorem owned_of_run {allowed : Informer α → Cache.Delta → Prop} {st : Informer α}
    {tr : List (Transition (Informer α) (InformerLabel α))}
    (h : Run (informerSystem α allowed) .empty tr st) :
    st.Owned ∧ ∀ t ∈ tr, t.pre.Owned ∧ t.post.Owned := by
  refine h.invariant ?_ fun _ _ _ hI hstep => hI.step hstep
  exact ⟨fun hk => absurd hk (by simp [empty]), fun hk => absurd hk (by simp [empty])⟩

/-- **The invariant rule of the informers**: what the watch and every allowed delta
preserve, from states in which the indexer owns what it stores. -/
theorem invariant_of_run {allowed : Informer α → Cache.Delta → Prop} {st : Informer α}
    {tr : List (Transition (Informer α) (InformerLabel α))} {I : Informer α → Prop}
    (h : Run (informerSystem α allowed) .empty tr st) (h0 : I .empty)
    (hreceive : ∀ a o, a.Owned → I a → I { a with heap := a.heap.alloc o })
    (hprocess : ∀ a d, a.Owned → I a → d.Allocated a.heap → allowed a d → I (a.processDelta d)) :
    I st := by
  induction h with
  | nil => exact h0
  | @snoc a b tr l hrun hstep ih =>
    have howned := (owned_of_run hrun).1
    cases l with
    | receive o =>
      obtain rfl : b = { a with heap := a.heap.alloc o } := hstep
      exact hreceive a o howned ih
    | process d =>
      obtain ⟨hd, hallowed, rfl⟩ := hstep
      exact hprocess a d howned ih hd hallowed

end Informer

/-! ### Batches -/

/-- The deltas of a batch point to objects and are allowed, each when its turn comes. -/
def Informer.Accepts (allowed : Informer α → Cache.Delta → Prop) (st : Informer α) :
    List Cache.Delta → Prop
  | [] => True
  | d :: rest => (d.Allocated st.heap ∧ allowed st d) ∧ Accepts allowed (st.processDelta d) rest

/-- The watch decodes an object, or `Process` is given a batch. -/
inductive BatchLabel (α : Type) where
  | receive (o : α)
  | process (deltas : List Cache.Delta)

/-- An informer with batches of deltas among `allowed`, from an empty indexer. -/
def batchSystem (α : Type) [Resource α] (allowed : Informer α → Cache.Delta → Prop) :
    System (Informer α) (BatchLabel α) where
  init := .empty
  step st l st' :=
    match l with
    | .receive o => st' = { st with heap := st.heap.alloc o }
    | .process deltas => st.Accepts allowed deltas ∧ st' = st.process deltas

/-- The steps of a batch, one for each delta. -/
def deltaSteps (st : Informer α) :
    List Cache.Delta → List (Transition (Informer α) (InformerLabel α))
  | [] => []
  | d :: rest => ⟨st, .process d, st.processDelta d⟩ :: deltaSteps (st.processDelta d) rest

/-- The steps of a call of `Process`, and the one of the watch. -/
def unbatch (t : Transition (Informer α) (BatchLabel α)) :
    List (Transition (Informer α) (InformerLabel α)) :=
  match t.label with
  | .receive o => [⟨t.pre, .receive o, t.post⟩]
  | .process deltas => deltaSteps t.pre deltas

section Batches

variable {allowed : Informer α → Cache.Delta → Prop} {st st₀ : Informer α}
  {tr : List (Transition (Informer α) (InformerLabel α))}

theorem Informer.process_append (st : Informer α) (deltas deltas' : List Cache.Delta) :
    st.process (deltas ++ deltas') = (st.process deltas).process deltas' :=
  List.foldl_append ..

theorem Informer.accepts_append {deltas deltas' : List Cache.Delta} :
    st.Accepts allowed (deltas ++ deltas') ↔
      st.Accepts allowed deltas ∧ (st.process deltas).Accepts allowed deltas' := by
  induction deltas generalizing st with
  | nil => exact ⟨fun h => ⟨trivial, h⟩, fun h => h.2⟩
  | cons d rest ih =>
    rw [List.cons_append, Accepts, Accepts, ih]
    exact and_assoc.symm

/-- **A batch is a run.** `Process` takes the deltas of a batch as steps, one after the
other. -/
theorem run_process (h : Run (informerSystem α allowed) st₀ tr st) {deltas : List Cache.Delta}
    (hdeltas : st.Accepts allowed deltas) :
    Run (informerSystem α allowed) st₀ (tr ++ deltaSteps st deltas) (st.process deltas) := by
  induction deltas generalizing st tr with
  | nil =>
    rw [deltaSteps, List.append_nil]
    exact h
  | cons d rest ih =>
    obtain ⟨⟨hd, hallowed⟩, hrest⟩ := hdeltas
    have hstep : (informerSystem α allowed).step st (.process d) (st.processDelta d) :=
      ⟨hd, hallowed, rfl⟩
    rw [deltaSteps, List.append_cons]
    exact ih (h.snoc hstep) hrest

/-- **Batches are deltas in a row.** -/
theorem run_unbatch {tr : List (Transition (Informer α) (BatchLabel α))}
    (h : Run (batchSystem α allowed) .empty tr st) :
    Run (informerSystem α allowed) .empty (tr.flatMap unbatch) st := by
  induction h with
  | nil => exact .nil _
  | @snoc a b tr l hrun hstep ih =>
    rw [List.flatMap_append, List.flatMap_singleton]
    cases l with
    | receive o => exact ih.snoc hstep
    | process deltas =>
      obtain ⟨hdeltas, rfl⟩ := hstep
      exact run_process ih hdeltas

end Batches

end EProxy
