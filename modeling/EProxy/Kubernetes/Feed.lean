import EProxy.Framework.DeltaQueue
import EProxy.Kubernetes.Refinement

/-!
# An informer behind its queue

In `Run` of an informer a reflector lists the objects of one kind and watches them, and puts what
it hears on a queue whose known objects are those of the indexer; `Process` takes the changes of
one object after the other from there. Reflector and queue are those of client-go: what is heard
is any sequence of lists and watch events here, and the queue any with the interface
`DeltaQueue`. `feedSystem` has all of this in any interleaving.

Queue and indexer hold pointers. The reflector decodes each object it hears of into a new place,
and `Process` overwrites what the pointers on the queue point to. The tombstone of a deletion
that a list brings to light carries the pointer of the indexer itself, which is overwritten
while the indexer still holds it. `Fed` is the invariant that keeps this from being seen: an
object on the queue is in nobody else's hands, but for that of a tombstone, which is stored under
the key that the tombstone removes or not at all.

What the indexer comes to hold once the queue is worked off is `settled`, and there is one lemma
for what each kind of step does to it.
-/

namespace EProxy

open Framework DeltaQueue

namespace Cache

instance : Change Delta where
  gone
    | .set _ _ => false
    | .deleted _ => true

/-- The object that has come with the delta. That of a tombstone is the indexer's. -/
def Delta.own : Delta → Option Ref
  | .set _ r | .deleted (.object r) => some r
  | .deleted (.tombstone _ _) => none

/-- The conversion of the first delta leaves the object of the second alone. -/
def Delta.Spares (d d' : Delta) : Prop := ∀ {r}, d'.own = some r → d.ref ≠ some r

variable {α : Type} [Resource α]

/-- The key a delta is about. -/
def Delta.key (h : Heap α) : Delta → String
  | .set _ r => Informer.deletionKey h (.object r)
  | .deleted obj => Informer.deletionKey h obj

/-- What is stored under the key after a delta. -/
def Delta.result (h : Heap α) : Delta → Option α
  | .set _ r => (h.read r).map Resource.custom
  | .deleted _ => none

section Reading

variable {h h' : Heap α} {d : Delta} {r : Ref}

theorem Delta.ref_of_own (hown : d.own = some r) : d.ref = some r := by
  rcases d with _ | (_ | _)
  · exact hown
  · exact hown
  · exact absurd hown (by simp [own])

theorem Delta.key_congr (hread : ∀ {r}, d.own = some r → h'.read r = h.read r) :
    d.key h' = d.key h := by
  rcases d with _ | (_ | _)
  · simp only [key, Informer.deletionKey, hread rfl]
  · simp only [key, Informer.deletionKey, hread rfl]
  · rfl

theorem Delta.result_congr (hread : ∀ {r}, d.own = some r → h'.read r = h.read r) :
    d.result h' = d.result h := by
  rcases d with _ | (_ | _)
  · simp only [result, hread rfl]
  · rfl
  · rfl

theorem Delta.result_of_gone (hgone : Change.gone d = true) : d.result h = none := by
  cases d with
  | set => exact absurd hgone Bool.false_ne_true
  | deleted => rfl

end Reading

end Cache

section Model

variable {F α : Type} [Resource α] [DeltaQueue F String Cache.Delta]

/-- The reflector decodes an object. -/
def Informer.receive (st : Informer α) (o : α) : Informer α :=
  { st with heap := st.heap.alloc o }

/-- What the objects of the indexer are. -/
def Informer.values (st : Informer α) : Table String α := fun k => (st.contents k).map Prod.snd

/-- What the reflector hears, or a `Pop` of the queue. A list comes with the keys of the
indexer, in the order in which `ListKeys` returns them. -/
inductive WatchLabel (α : Type) where
  | added (o : α)
  | modified (o : α)
  | deleted (o : α)
  | replace (list : List α) (known : List String)
  | pop

/-- Every object that is heard of satisfies `P`. -/
def WatchLabel.All (P : α → Prop) : WatchLabel α → Prop
  | .added o | .modified o | .deleted o => P o
  | .replace list _ => ∀ o ∈ list, P o
  | .pop => True

/-- An informer and the queue in front of it. -/
structure Feed (F α : Type) where
  informer : Informer α
  fifo : F

namespace Feed

/-- An informer that has not been started. -/
def init : Feed F α := ⟨.empty, new⟩

/-- An object is added or changed. -/
def hear (f : Feed F α) (type : Cache.DeltaType) (o : α) : Feed F α where
  informer := f.informer.receive o
  fifo := add f.fifo (Resource.key o) (.set type f.informer.heap.fresh)

/-- An object is deleted. -/
def hearGone (f : Feed F α) (o : α) : Feed F α where
  informer := f.informer.receive o
  fifo := delete f.fifo (f.informer.items (Resource.key o)).isSome (Resource.key o)
    (.deleted (.object f.informer.heap.fresh))

/-- The objects of a list are decoded, and each has its delta. -/
def decode (st : Informer α) : List α → Informer α × List (String × Cache.Delta)
  | [] => (st, [])
  | o :: list =>
    let rest := decode (st.receive o) list
    (rest.1, (Resource.key o, .set .replaced st.heap.fresh) :: rest.2)

/-- A list of all objects. -/
def relist (f : Feed F α) (list : List α) (known : List String) : Feed F α where
  informer := (decode f.informer list).1
  fifo := replace f.fifo (decode f.informer list).2 known
    -- `GetByKey` of the indexer
    fun key => .deleted (.tombstone key (f.informer.items key))

/-- `Process` for the changes of the key that has been taken. -/
def process (f : Feed F α) (key : String) (fifo : F) : Feed F α where
  informer := f.informer.process (items f.fifo key)
  fifo := fifo

/-- `ListKeys` of the indexer. -/
structure Lists (f : Feed F α) (known : List String) : Prop where
  nodup : known.Nodup
  mem_iff : ∀ {k}, k ∈ known ↔ (f.informer.items k).isSome

end Feed

/-- An informer and what it hears. -/
def feedSystem (F α : Type) [Resource α] [DeltaQueue F String Cache.Delta] :
    System (Feed F α) (WatchLabel α) where
  init := .init
  step f l f' :=
    match l with
    | .added o => f' = f.hear .added o
    | .modified o => f' = f.hear .updated o
    | .deleted o => f' = f.hearGone o
    | .replace list known => f.Lists known ∧ f' = f.relist list known
    | .pop => ∃ key fifo, pop f.fifo = some (key, fifo) ∧ f' = f.process key fifo

end Model

/-! ### Objects on the queue -/

section Waiting

variable {α : Type} [Resource α] {st : Informer α} {k : String} {d d' : Cache.Delta} {r : Ref}
  {ds : List Cache.Delta}

/-- A delta waits under its key, and the indexer does not hold its object, unless the delta is a
tombstone and the object is stored under its key. -/
structure Placed (st : Informer α) (k : String) (d : Cache.Delta) : Prop where
  allocated : d.Allocated st.heap
  key : d.key st.heap = k
  held : ∀ {r k'}, d.ref = some r → st.items k' = some r → d.own = none ∧ k' = k

theorem Placed.ref_ne_fresh (h : Placed st k d) : d.ref ≠ some st.heap.fresh := by
  intro hr
  have hsome := h.allocated _ hr
  rw [Heap.read_fresh] at hsome
  exact absurd hsome (by simp)

omit [Resource α] in
theorem Cache.Delta.Allocated.read_receive (h : d.Allocated st.heap) (o : α)
    (hr : d.ref = some r) : (st.receive o).heap.read r = st.heap.read r := by
  obtain ⟨v, hv⟩ := Option.isSome_iff_exists.mp (h r hr)
  rw [Informer.receive, Heap.read_alloc_of_read hv, hv]

theorem Cache.Delta.Allocated.read_processDelta (h : d.Allocated st.heap)
    (hd' : d'.Allocated st.heap) (hspares : d'.Spares d) (hr : d.own = some r) :
    (st.processDelta d').heap.read r = st.heap.read r := by
  obtain ⟨v, hv⟩ := Option.isSome_iff_exists.mp (h r (ref_of_own hr))
  rw [Informer.heap_processDelta st hd', d'.read_heapAfter hv, if_neg (hspares hr), hv]

theorem Cache.Delta.Allocated.processDelta (hd : d.Allocated st.heap)
    (hd' : d'.Allocated st.heap) : d.Allocated (st.processDelta d').heap := by
  intro r hr
  obtain ⟨v, hv⟩ := Option.isSome_iff_exists.mp (hd r hr)
  rw [Informer.heap_processDelta st hd', d'.read_heapAfter hv]
  rfl

/-- A batch that spares a delta leaves its object alone. -/
theorem read_own_process (hd : d.Allocated st.heap)
    (hds : ∀ d' ∈ ds, d'.Allocated st.heap ∧ d'.Spares d) (hr : d.own = some r) :
    (st.process ds).heap.read r = st.heap.read r := by
  induction ds generalizing st with
  | nil => rfl
  | cons d' ds ih =>
    obtain ⟨hd', hspares⟩ := hds d' List.mem_cons_self
    refine (ih (hd.processDelta hd') fun x hx => ?_).trans (hd.read_processDelta hd' hspares hr)
    obtain ⟨hx, hxd⟩ := hds x (List.mem_cons_of_mem _ hx)
    exact ⟨hx.processDelta hd', hxd⟩

theorem Placed.receive (h : Placed st k d) (o : α) : Placed (st.receive o) k d where
  allocated r hr := by
    rw [h.allocated.read_receive o hr]
    exact h.allocated r hr
  key := by
    rw [Cache.Delta.key_congr fun hr => h.allocated.read_receive o (Cache.Delta.ref_of_own hr)]
    exact h.key
  held := h.held

/-- What the indexer holds after a delta is new or was there before. -/
theorem Informer.items_of_processDelta (hd : d.Allocated st.heap)
    (hk : (st.processDelta d).items k = some r) : st.items k = some r ∨ r = st.heap.fresh := by
  cases d with
  | set type r' =>
    obtain ⟨o, hr'⟩ := hd.read
    rw [items_set st type hr', Table.set_apply] at hk
    split at hk
    · exact Or.inr (Option.some.inj hk).symm
    · exact Or.inl hk
  | deleted obj =>
    rw [items_deleted st hd] at hk
    exact Or.inl (Table.of_erase hk)

theorem Placed.processDelta (h : Placed st k d) (hd' : d'.Allocated st.heap)
    (hspares : d'.Spares d) : Placed (st.processDelta d') k d where
  allocated := h.allocated.processDelta hd'
  key := by
    rw [Cache.Delta.key_congr fun hr => h.allocated.read_processDelta hd' hspares hr]
    exact h.key
  held hr hk := by
    -- what the other delta has stored is new, and this object is not
    rcases Informer.items_of_processDelta hd' hk with hk | rfl
    · exact h.held hr hk
    · exact absurd hr h.ref_ne_fresh

/-- A batch of other deltas is processed. -/
theorem Placed.process (h : Placed st k d)
    (hds : ∀ d' ∈ ds, d'.Allocated st.heap ∧ d'.Spares d) : Placed (st.process ds) k d := by
  induction ds generalizing st with
  | nil => exact h
  | cons d' ds ih =>
    obtain ⟨hd', hspares⟩ := hds d' List.mem_cons_self
    refine ih (h.processDelta hd' hspares) fun x hx => ?_
    obtain ⟨hx, hxd⟩ := hds x (List.mem_cons_of_mem _ hx)
    exact ⟨hx.processDelta hd', hxd⟩

omit [Resource α] in
theorem Informer.Owned.receive (h : st.Owned) (o : α) : (st.receive o).Owned := by
  refine ⟨fun hk => ?_, h.unshared⟩
  obtain ⟨v, hv⟩ := h.allocated hk
  exact ⟨v, (h.read_alloc o hk).trans hv⟩

theorem Informer.Owned.process (h : st.Owned) (hds : ∀ d ∈ ds, d.Allocated st.heap) :
    (st.process ds).Owned := by
  induction ds generalizing st with
  | nil => exact h
  | cons d ds ih =>
    have hd := hds d List.mem_cons_self
    refine ih (h.processDelta hd) fun x hx => ?_
    exact (hds x (List.mem_cons_of_mem _ hx)).processDelta hd

/-! ### What `Process` does with them -/

omit [Resource α] in
theorem Informer.values_receive (h : st.Owned) (o : α) : (st.receive o).values = st.values := by
  funext k
  rw [values, receive, contents_receive h, values]

/-- **One delta.** It decides on the object under its key, and wipes nothing else that is
stored. -/
theorem Placed.values_processDelta (h : Placed st k d) (howned : st.Owned) :
    (st.processDelta d).values = st.values.assign k (d.result st.heap) := by
  have hd := h.allocated
  -- the wipe hits the object of the delta, which is stored under its own key at most
  have hvalue : ∀ k', k' ≠ k → (st.processDelta d).items k' = st.items k' →
      (st.processDelta d).values k' = st.values k' := by
    intro k' hk' hitems
    rw [Informer.values, Informer.contents_congr hitems fun r hr => ?_, Informer.values]
    obtain ⟨o, ho⟩ := howned.allocated hr
    have hne : d.ref ≠ some r := fun href => hk' (h.held href hr).2
    rw [Informer.heap_processDelta st hd, d.read_heapAfter ho, if_neg hne, ho]
  cases d with
  | set type r =>
    obtain ⟨o, hr⟩ := hd.read
    have hkey : Resource.key o = k := by
      rw [← h.key, Cache.Delta.key, Informer.deletionKey, hr]
      rfl
    have hitems := Informer.items_set st type hr
    rw [hkey] at hitems
    funext k'
    by_cases hk' : k' = k
    -- stored is the copy that the conversion makes, not the object that it wipes
    · have hread : (st.processDelta (.set type r)).heap.read st.heap.fresh =
          some (Resource.custom o) := by
        rw [Informer.heap_processDelta st hd]
        exact read_convert_fresh hr
      have hstored : (st.processDelta (.set type r)).items k = some st.heap.fresh := by
        rw [hitems]
        exact Table.set_self ..
      rw [hk', Table.assign_self, Informer.values, Informer.contents_of_read hstored hread,
        Cache.Delta.result, hr]
      rfl
    · rw [Table.assign_of_ne _ _ hk']
      refine hvalue k' hk' ?_
      rw [hitems]
      exact Table.set_of_ne _ _ hk'
  | deleted obj =>
    have hkey : Informer.deletionKey st.heap obj = k := h.key
    have hitems := Informer.items_deleted st hd
    rw [hkey] at hitems
    funext k'
    by_cases hk' : k' = k
    · have hnone : (st.processDelta (.deleted obj)).items k = none := by
        rw [hitems]
        exact Table.erase_self ..
      rw [hk', Table.assign_self, Informer.values, Informer.contents_of_none hnone]
      rfl
    · rw [Table.assign_of_ne _ _ hk']
      refine hvalue k' hk' ?_
      rw [hitems]
      exact Table.erase_of_ne _ hk'

/-- **A batch.** The last delta decides. -/
theorem Informer.values_process (howned : st.Owned) (hds : ∀ d ∈ ds, Placed st k d)
    (hspares : ds.Pairwise Cache.Delta.Spares) :
    (st.process ds).values =
      st.values.assign k (ds.getLast?.elim (st.values k) (·.result st.heap)) := by
  induction ds generalizing st with
  | nil => exact (Function.update_eq_self k st.values).symm
  | cons d ds ih =>
    obtain ⟨hfirst, hspares⟩ := List.pairwise_cons.mp hspares
    have hplaced := hds d List.mem_cons_self
    have hd := hplaced.allocated
    have hrest : ∀ x ∈ ds, Placed (st.processDelta d) k x := fun x hx =>
      (hds x (List.mem_cons_of_mem _ hx)).processDelta hd (hfirst x hx)
    have hbatch := ih (howned.processDelta hd) hrest hspares
    rw [show st.process (d :: ds) = (st.processDelta d).process ds from rfl, hbatch,
      hplaced.values_processDelta howned, Table.assign_self]
    -- what is still to come is left alone by the first one
    have hlast : ds.getLast?.elim (d.result st.heap) (·.result (st.processDelta d).heap) =
        (d :: ds).getLast?.elim (st.values k) (·.result st.heap) := by
      cases hcase : ds.getLast? with
      | none =>
        rw [List.getLast?_eq_none_iff.mp hcase]
        rfl
      | some x =>
        have hx : x ∈ ds := List.mem_of_getLast? hcase
        have hallocated := (hds x (List.mem_cons_of_mem _ hx)).allocated
        rw [List.getLast?_cons, hcase]
        exact Cache.Delta.result_congr fun hr =>
          hallocated.read_processDelta hd (hfirst x hx) hr
    rw [hlast]
    exact Function.update_idem ..

theorem key_set (st : Informer α) (type : Cache.DeltaType) (o : α) :
    (Cache.Delta.set type st.heap.fresh).key (st.receive o).heap = Resource.key o := by
  rw [Cache.Delta.key, Informer.deletionKey, Informer.receive, Heap.read_alloc_fresh]
  rfl

theorem key_deleted (st : Informer α) (o : α) :
    (Cache.Delta.deleted (.object st.heap.fresh)).key (st.receive o).heap = Resource.key o :=
  key_set st .added o

end Waiting

/-! ### The invariant -/

section Invariant

variable {F α : Type} [Resource α] [DeltaQueue F String Cache.Delta] {st : Informer α} {fifo : F}
  {k : String} {d : Cache.Delta} {o : α}

/-- **The invariant.** The indexer owns what it holds, the deltas wait in their places, and none
wipes the object of another that is still to come. -/
structure Fed (st : Informer α) (fifo : F) : Prop where
  owned : st.Owned
  placed : ∀ {k d}, d ∈ items fifo k → Placed st k d
  spares : ∀ k, (items fifo k).Pairwise Cache.Delta.Spares
  spares_of_ne : ∀ {k k' d d'}, k ≠ k' → d ∈ items fifo k → d' ∈ items fifo k' → d.Spares d'

namespace Fed

/-- Only the items count. -/
theorem congr {fifo' : F} (h : Fed st fifo) (hitems : items fifo' = items fifo) :
    Fed st fifo' where
  owned := h.owned
  placed hd := h.placed (congrFun hitems _ ▸ hd)
  spares k := congrFun hitems k ▸ h.spares k
  spares_of_ne hne hd hd' :=
    h.spares_of_ne hne (congrFun hitems _ ▸ hd) (congrFun hitems _ ▸ hd')

theorem receive (h : Fed st fifo) (o : α) : Fed (st.receive o) fifo where
  owned := h.owned.receive o
  placed hd := (h.placed hd).receive o
  spares := h.spares
  spares_of_ne := h.spares_of_ne

/-- **One more delta** that spares those on the queue and is spared by them. -/
theorem add (h : Fed st fifo) (hplaced : Placed st k d)
    (hspares : ∀ {k' d'}, d' ∈ items fifo k' → d'.Spares d ∧ d.Spares d') :
    Fed st (DeltaQueue.add fifo k d) where
  owned := h.owned
  placed hd := by
    rcases mem_items_add hd with hd | heq
    · exact h.placed hd
    · obtain ⟨rfl, rfl⟩ := Prod.ext_iff.mp heq
      exact hplaced
  spares k' := by
    by_cases hk : k' = k
    · -- merging leaves deltas out and makes none
      subst hk
      refine List.Pairwise.sublist (items_add_sublist fifo k' d) (List.pairwise_append.mpr ?_)
      refine ⟨h.spares k', List.pairwise_singleton _ _, fun d' hd' x hx => ?_⟩
      obtain rfl := List.mem_singleton.mp hx
      exact (hspares hd').1
    · rw [items_add_of_ne fifo d hk]
      exact h.spares k'
  spares_of_ne hne hx hx' := by
    rcases mem_items_add hx with hold | heq <;> rcases mem_items_add hx' with hold' | heq'
    · exact h.spares_of_ne hne hold hold'
    · obtain ⟨-, rfl⟩ := Prod.ext_iff.mp heq'
      exact (hspares hold).1
    · obtain ⟨-, rfl⟩ := Prod.ext_iff.mp heq
      exact (hspares hold').2
    · exact absurd ((Prod.ext_iff.mp heq).1.trans (Prod.ext_iff.mp heq').1.symm) hne

/-- A delta with an object that has just been decoded. -/
theorem addNew (h : Fed st fifo) (hown : d.own = some st.heap.fresh)
    (hkey : d.key (st.receive o).heap = k) : Fed (st.receive o) (DeltaQueue.add fifo k d) := by
  have href := Cache.Delta.ref_of_own hown
  have hplaced : Placed (st.receive o) k d := by
    refine ⟨fun r hr => ?_, hkey, fun hr hk' => ?_⟩
    · obtain rfl := Option.some.inj (href.symm.trans hr)
      exact Option.isSome_iff_exists.mpr ⟨o, Heap.read_alloc_fresh st.heap o⟩
    · obtain rfl := Option.some.inj (href.symm.trans hr)
      exact absurd hk' (h.owned.ne_fresh _)
  -- what is on the queue was allocated before the object was
  refine (h.receive o).add hplaced fun hd' => ?_
  have hne := (h.placed hd').ref_ne_fresh
  constructor
  · intro r hr
    obtain rfl := Option.some.inj (hown.symm.trans hr)
    exact hne
  · intro r hr heq
    obtain rfl := Option.some.inj (href.symm.trans heq)
    exact hne (Cache.Delta.ref_of_own hr)

/-- A tombstone with the object that is stored under its key. -/
theorem addGone (h : Fed st fifo) (k : String) :
    Fed st (DeltaQueue.add fifo k (.deleted (.tombstone k (st.items k)))) := by
  have hplaced : Placed st k (.deleted (.tombstone k (st.items k))) := by
    refine ⟨fun r hr => ?_, rfl, fun hr hk' => ⟨rfl, h.owned.unshared hk' hr⟩⟩
    exact Option.isSome_iff_exists.mpr (h.owned.allocated hr)
  refine h.add hplaced fun hd' => ⟨fun hr => ?_, fun {r} hr heq => ?_⟩
  · exact absurd hr (by simp [Cache.Delta.own])
  -- an object that came with a delta on the queue is not in the indexer, and this one is
  have hnone := ((h.placed hd').held (Cache.Delta.ref_of_own hr) heq).1
  exact absurd (hr.symm.trans hnone) (by simp)

theorem process {fifo' : F} (h : Fed st fifo) (hpop : pop fifo = some (k, fifo')) :
    Fed (st.process (items fifo k)) fifo' where
  owned := h.owned.process fun d hd => (h.placed hd).allocated
  placed hd := by
    obtain ⟨hne, hd⟩ := mem_items_pop hpop hd
    -- the batch wipes nothing that waits under the other keys
    refine (h.placed hd).process fun d' hd' => ?_
    exact ⟨(h.placed hd').allocated, h.spares_of_ne (Ne.symm hne) hd' hd⟩
  spares k' := by
    rw [items_pop hpop]
    by_cases hk : k' = k
    · rw [hk, Function.update_self]
      exact .nil
    · rw [Function.update_of_ne hk]
      exact h.spares k'
  spares_of_ne hne hd hd' :=
    h.spares_of_ne hne (mem_items_pop hpop hd).2 (mem_items_pop hpop hd').2

end Fed

theorem Feed.items_decode (st : Informer α) (list : List α) :
    (Feed.decode st list).1.items = st.items := by
  induction list generalizing st with
  | nil => rfl
  | cons o list ih => exact ih (st.receive o)

theorem Feed.keys_decode (st : Informer α) (list : List α) :
    (Feed.decode st list).2.map Prod.fst = list.map Resource.key := by
  induction list generalizing st with
  | nil => rfl
  | cons o list ih => rw [Feed.decode, List.map_cons, List.map_cons, ih]

theorem values_decode {st : Informer α} (howned : st.Owned) (list : List α) :
    (Feed.decode st list).1.values = st.values := by
  induction list generalizing st with
  | nil => rfl
  | cons o list ih => exact (ih (howned.receive o)).trans (Informer.values_receive howned o)

/-- The keys of the indexer that a list lacks. -/
def missing (list : List α) (known : List String) : List String :=
  known.filter (· ∉ list.map Resource.key)

/-- A list is its objects and then the tombstones. -/
theorem Feed.items_relist (f : Feed F α) (list : List α) (known : List String) :
    items (f.relist list known).fifo =
      items (addAll (addAll f.fifo (Feed.decode f.informer list).2)
        ((missing list known).map fun k =>
          (k, .deleted (.tombstone k ((Feed.decode f.informer list).1.items k))))) := by
  rw [Feed.relist, items_replace, unlisted, Feed.keys_decode, Feed.items_decode]
  exact congrArg items (addAll_append ..)

/-- **What the steps are made of.** An object is decoded and comes with a delta of its own or with
none, a tombstone brings what is stored, or a key is taken; and `J` is kept by all of this, for
objects that satisfy `P`. -/
structure Maintained (P : α → Prop) (J : Informer α → F → Prop) : Prop where
  congr : ∀ {st fifo fifo'}, J st fifo → items fifo' = items fifo → J st fifo'
  receive : ∀ {st fifo} o, J st fifo → J (st.receive o) fifo
  addNew : ∀ {st fifo k d o}, J st fifo → P o → d.own = some st.heap.fresh →
    d.key (st.receive o).heap = k → J (st.receive o) (add fifo k d)
  addGone : ∀ {st fifo} k, J st fifo → J st (add fifo k (.deleted (.tombstone k (st.items k))))
  process : ∀ {st fifo k fifo'}, J st fifo → pop fifo = some (k, fifo') →
    J (st.process (items fifo k)) fifo'

namespace Maintained

variable {P : α → Prop} {J : Informer α → F → Prop}

/-- The objects of a list come one after the other. -/
theorem decode (hJ : Maintained P J) (h : J st fifo) {list : List α} (hlist : ∀ o ∈ list, P o) :
    J (Feed.decode st list).1 (addAll fifo (Feed.decode st list).2) := by
  induction list generalizing st fifo with
  | nil => exact h
  | cons o list ih =>
    obtain ⟨ho, hlist⟩ := List.forall_mem_cons.mp hlist
    exact ih (hJ.addNew h ho rfl (key_set st .replaced o)) hlist

theorem addAllGone (hJ : Maintained P J) (h : J st fifo) (keys : List String) :
    J st (addAll fifo (keys.map fun k => (k, .deleted (.tombstone k (st.items k))))) := by
  induction keys generalizing fifo with
  | nil => exact h
  | cons k keys ih => exact ih (hJ.addGone k h)

/-- **The step.** -/
theorem step (hJ : Maintained P J) {f f' : Feed F α} {l : WatchLabel α} (h : J f.informer f.fifo)
    (hl : l.All P) (hstep : (feedSystem F α).step f l f') : J f'.informer f'.fifo := by
  cases l with
  | added o =>
    obtain rfl : f' = f.hear .added o := hstep
    exact hJ.addNew h hl rfl (key_set f.informer .added o)
  | modified o =>
    obtain rfl : f' = f.hear .updated o := hstep
    exact hJ.addNew h hl rfl (key_set f.informer .updated o)
  | deleted o =>
    obtain rfl : f' = f.hearGone o := hstep
    -- the object is decoded in any case; its deletion is dropped where nothing is known
    have hitems := items_delete f.fifo (f.informer.items (Resource.key o)).isSome (Resource.key o)
      (.deleted (.object f.informer.heap.fresh))
    split at hitems
    · exact hJ.congr (hJ.addNew h hl rfl (key_deleted f.informer o)) hitems
    · exact hJ.congr (hJ.receive o h) hitems
  | replace list known =>
    obtain ⟨-, rfl⟩ := hstep
    -- the tombstones are made out of the indexer, which decoding leaves alone
    exact hJ.congr (hJ.addAllGone (hJ.decode h hl) (missing list known))
      (f.items_relist list known)
  | pop =>
    obtain ⟨key, fifo, hpop, rfl⟩ := hstep
    exact hJ.process h hpop

end Maintained

omit [Resource α] in
theorem WatchLabel.all_true (l : WatchLabel α) : l.All fun _ => True := by
  cases l with
  | replace list known => exact fun _ _ => trivial
  | _ => trivial

theorem fed_maintained : Maintained (fun _ : α => True) (Fed (F := F)) where
  congr h hitems := h.congr hitems
  receive o h := h.receive o
  addNew h _ hown hkey := h.addNew hown hkey
  addGone k h := h.addGone k
  process h hpop := h.process hpop

theorem fed_init : Fed (Feed.init : Feed F α).informer (Feed.init : Feed F α).fifo where
  owned := ⟨fun hk => absurd hk (by simp [Feed.init, Informer.empty]),
    fun hk => absurd hk (by simp [Feed.init, Informer.empty])⟩
  placed {k d} hd := by
    rw [Feed.init, items_new] at hd
    exact absurd hd List.not_mem_nil
  spares k := by
    rw [Feed.init, items_new]
    exact .nil
  spares_of_ne {k k' d d'} _ hd := by
    rw [Feed.init, items_new] at hd
    exact absurd hd List.not_mem_nil

/-- **The run.** -/
theorem fed_of_run {f : Feed F α} {tr : List (Transition (Feed F α) (WatchLabel α))}
    (hrun : Run (feedSystem F α) .init tr f) : Fed f.informer f.fifo :=
  (hrun.invariant (I := fun f => Fed f.informer f.fifo) fed_init
    fun _ l _ h hstep => fed_maintained.step h l.all_true hstep).1

end Invariant

/-! ### What it comes to -/

section Settled

variable {F α : Type} [Resource α] [DeltaQueue F String Cache.Delta] {st : Informer α}
  {fifo fifo' : F} {k : String} {d : Cache.Delta}

/-- What the indexer holds under each key once the queue is worked off. -/
def settled (st : Informer α) (fifo : F) : Table String α := fun k =>
  (items fifo k).getLast?.elim (st.values k) (·.result st.heap)

theorem settled_congr (hitems : items fifo' = items fifo) : settled st fifo' = settled st fifo := by
  funext k
  rw [settled, settled, hitems]

theorem settled_of_nil (hnil : items fifo k = []) : settled st fifo k = st.values k := by
  rw [settled, hnil]
  rfl

theorem settled_of_idle (hidle : pop fifo = none) : settled st fifo = st.values := by
  funext k
  exact settled_of_nil (items_of_pop_none hidle k)

theorem settled_receive (h : Fed st fifo) (o : α) :
    settled (st.receive o) fifo = settled st fifo := by
  funext k
  rw [settled, settled, Informer.values_receive h.owned]
  cases hlast : (items fifo k).getLast? with
  | none => rfl
  | some d =>
    have hallocated := (h.placed (List.mem_of_getLast? hlast)).allocated
    exact Cache.Delta.result_congr fun hr =>
      hallocated.read_receive o (Cache.Delta.ref_of_own hr)

/-- A delta decides on its key. -/
theorem settled_add :
    settled st (add fifo k d) = (settled st fifo).assign k (d.result st.heap) := by
  funext k'
  by_cases hk : k' = k
  · subst hk
    obtain ⟨x, hlast, hx⟩ := items_add_last fifo k' d
    rw [Table.assign_self, settled, hlast]
    -- a deletion that has been merged is as good as the other one
    rcases hx with rfl | ⟨hx, hd⟩
    · rfl
    · exact (Cache.Delta.result_of_gone hx).trans (Cache.Delta.result_of_gone hd).symm
  · rw [Table.assign_of_ne _ _ hk, settled, settled, items_add_of_ne fifo d hk]

theorem result_set (st : Informer α) (type : Cache.DeltaType) (o : α) :
    (Cache.Delta.set type st.heap.fresh).result (st.receive o).heap = some (Resource.custom o) := by
  rw [Cache.Delta.result, Informer.receive, Heap.read_alloc_fresh]
  rfl

theorem settled_hear (h : Fed st fifo) (type : Cache.DeltaType) (o : α) :
    settled (st.receive o) (add fifo (Resource.key o) (.set type st.heap.fresh)) =
      (settled st fifo).assign (Resource.key o) (some (Resource.custom o)) := by
  rw [settled_add, settled_receive h, result_set]

/-- A deletion that is left out would have changed nothing. -/
theorem settled_hearGone (h : Fed st fifo) (o : α) :
    settled (st.receive o) (delete fifo (st.items (Resource.key o)).isSome (Resource.key o)
        (.deleted (.object st.heap.fresh))) =
      (settled st fifo).assign (Resource.key o) none := by
  have hitems := items_delete fifo (st.items (Resource.key o)).isSome (Resource.key o)
    (.deleted (.object st.heap.fresh))
  split at hitems
  · rw [settled_congr hitems, settled_add, settled_receive h]
    rfl
  · next hnot =>
    -- neither stored nor waiting: there was nothing to take back
    rw [Bool.or_eq_true, not_or, Bool.not_eq_true, Option.isSome_eq_false_iff,
      Option.isNone_iff_eq_none] at hnot
    have hnil : items fifo (Resource.key o) = [] := by simpa using hnot.2
    have habsent : settled st fifo (Resource.key o) = none := by
      rw [settled_of_nil hnil, Informer.values, Informer.contents_of_none hnot.1]
      rfl
    rw [settled_congr hitems, settled_receive h]
    exact (Table.erase_of_absent habsent).symm

theorem settled_decode (h : Fed st fifo) (list : List α) :
    settled (Feed.decode st list).1 (addAll fifo (Feed.decode st list).2) =
      (settled st fifo).assignAll
        (list.map fun o => (Resource.key o, some (Resource.custom o))) := by
  induction list generalizing st fifo with
  | nil => rfl
  | cons o list ih =>
    have hrest := ih (h.addNew rfl (key_set st .replaced o))
    rw [settled_hear h] at hrest
    exact hrest

theorem settled_addAllGone (keys : List String) :
    settled st (addAll fifo (keys.map fun k => (k, .deleted (.tombstone k (st.items k))))) =
      (settled st fifo).assignAll (keys.map fun k => (k, none)) := by
  induction keys generalizing fifo with
  | nil => rfl
  | cons k keys ih =>
    have hrest := @ih (add fifo k (.deleted (.tombstone k (st.items k))))
    rw [settled_add] at hrest
    exact hrest

/-- **A list** settles the keys it has and those of the indexer. -/
theorem settled_relist {f : Feed F α} (h : Fed f.informer f.fifo) {list : List α}
    {known : List String} (hknown : f.Lists known) :
    settled (f.relist list known).informer (f.relist list known).fifo k =
      if k ∈ list.map Resource.key then
        Table.empty.assignAll (list.map fun o => (Resource.key o, some (Resource.custom o))) k
      else if (f.informer.items k).isSome then none else settled f.informer f.fifo k := by
  have hall : settled (f.relist list known).informer (f.relist list known).fifo =
      ((settled f.informer f.fifo).assignAll
        (list.map fun o => (Resource.key o, some (Resource.custom o)))).assignAll
          ((missing list known).map fun k => (k, none)) := by
    rw [settled_congr (f.items_relist list known), ← settled_decode h list]
    exact settled_addAllGone _
  have hkeys : ((missing list known).map fun k => (k, (none : Option α))).map Prod.fst =
      missing list known := by
    rw [List.map_map]
    exact List.map_id _
  have hlisted : (list.map fun o => (Resource.key o, some (Resource.custom o))).map Prod.fst =
      list.map Resource.key := by
    rw [List.map_map]
    rfl
  have hmem : k ∈ missing list known ↔ k ∈ known ∧ k ∉ list.map Resource.key := by
    rw [missing, List.mem_filter, decide_eq_true_eq]
  rw [hall]
  split
  · next hk =>
    -- a listed key is not among the missing ones
    rw [Table.assignAll_of_notMem fun hmiss => (hmem.mp (hkeys ▸ hmiss)).2 hk]
    exact Table.assignAll_of_mem _ (hlisted ▸ hk)
  · next hk =>
    split
    -- a key of the indexer gets a tombstone, any other one is left as it was
    · next hstored => exact Table.assignAll_none (hmem.mpr ⟨hknown.mem_iff.mpr hstored, hk⟩)
    · next hstored =>
      rw [Table.assignAll_of_notMem fun hmiss =>
        hstored (hknown.mem_iff.mp (hmem.mp (hkeys ▸ hmiss)).1)]
      exact Table.assignAll_of_notMem fun hin => hk (hlisted ▸ hin)

/-- What has been taken is stored as settled. -/
theorem values_process (h : Fed st fifo) :
    (st.process (items fifo k)).values = st.values.assign k (settled st fifo k) :=
  Informer.values_process h.owned (fun _ hd => h.placed hd) (h.spares k)

/-- **A `Pop`** changes nothing about what is settled. -/
theorem settled_process (h : Fed st fifo) (hpop : pop fifo = some (k, fifo')) :
    settled (st.process (items fifo k)) fifo' = settled st fifo := by
  funext k'
  by_cases hk : k' = k
  -- what was still to come under the key is stored now
  · have hnil : items fifo' k = [] := by
      rw [items_pop hpop, Function.update_self]
    rw [hk, settled_of_nil hnil, values_process h, Table.assign_self]
  -- the batch wipes its own objects, and none that waits under another key
  · have hitems : items fifo' k' = items fifo k' := by
      rw [items_pop hpop, Function.update_of_ne hk]
    rw [settled, hitems, values_process h, Table.assign_of_ne _ _ hk, settled]
    cases hlast : (items fifo k').getLast? with
    | none => rfl
    | some d =>
      have hd : d ∈ items fifo k' := List.mem_of_getLast? hlast
      refine Cache.Delta.result_congr fun hr => ?_
      exact read_own_process (h.placed hd).allocated (fun d' hd' =>
        ⟨(h.placed hd').allocated, h.spares_of_ne (Ne.symm hk) hd' hd⟩) hr

end Settled

end EProxy
