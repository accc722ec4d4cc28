import EProxy.Kubernetes.Callbacks

/-!
# The namespace index

Besides its items the indexer keeps, for each namespace, the keys of the objects in it;
a lister of one namespace reads this. `IndexExact` says that the two agree.

`Indexer.Delete` finds the list to remove the key from by asking the stored object for
its namespace. A tombstone that `DeltaFIFO.Replace` queues for a key that a relist
misses carries the very object that is stored, and the conversion has overwritten it by
then: the object is in no namespace any more, and its key stays in the list of the
namespace it was in (`tombstone_indexExact_iff`). Deltas that share no object with the
indexer keep the index exact (`indexExact_of_run`).

The argument rests on `Listed`: whatever has been wiped, a stored key is listed under the
namespace its object was stored with.
-/

namespace EProxy

open Framework

variable {α : Type} [Resource α]

namespace Informer

/-- **The index is exact**: each namespace lists the keys of the stored objects that are
in it, and no others. -/
def IndexExact (st : Informer α) : Prop :=
  ∀ ns k, k ∈ st.index ns ↔ ∃ r, st.items k = some r ∧ namespaceOf st.heap r = ns

/-! ### The lists -/

theorem mem_list {index : String → List String} {ns key ns' k : String} :
    k ∈ list index ns key ns' ↔ k ∈ index ns' ∨ ns' = ns ∧ k = key := by
  unfold list
  by_cases hns : ns' = ns
  · subst hns
    rw [Function.update_self, List.mem_insert_iff]
    tauto
  · rw [Function.update_of_ne hns]
    tauto

theorem mem_unlist {index : String → List String} {ns key ns' k : String} :
    k ∈ unlist index ns key ns' ↔ k ∈ index ns' ∧ ¬ (ns' = ns ∧ k = key) := by
  unfold unlist
  by_cases hns : ns' = ns
  · subst hns
    rw [Function.update_self, List.mem_filter, decide_eq_true_iff]
    tauto
  · rw [Function.update_of_ne hns]
    tauto

/-- Removing a key from its list leaves the other keys listed. -/
theorem mem_unlistStored_of_ne {st : Informer α} {h : Heap α} {key k ns : String}
    (hk : k ≠ key) : k ∈ { st with heap := h }.unlistStored key ns ↔ k ∈ st.index ns := by
  unfold unlistStored
  cases st.items key with
  | none => rfl
  | some r =>
    rw [mem_unlist]
    tauto

/-- A stored key is removed from the list of the namespace that its object is in now. -/
theorem mem_unlistStored_self {st : Informer α} {h : Heap α} {key ns : String} {r : Ref}
    (hr : st.items key = some r) :
    key ∈ { st with heap := h }.unlistStored key ns ↔
      key ∈ st.index ns ∧ ns ≠ namespaceOf h r := by
  rw [unlistStored, hr, mem_unlist]
  tauto

/-! ### Stored keys are listed -/

/-- Each stored key is listed, under the namespace of its object unless that has been
wiped. -/
def Listed (st : Informer α) : Prop :=
  ∀ k r, st.items k = some r →
    ∃ ns, k ∈ st.index ns ∧ (namespaceOf st.heap r = ns ∨ namespaceOf st.heap r = "")

/-- A delta leaves the object of a stored key where it is, or in no namespace. -/
theorem namespaceOf_heapAfter {st : Informer α} (h : st.Owned) (d : Cache.Delta) {k : String}
    {r : Ref} (hk : st.items k = some r) :
    namespaceOf (d.heapAfter st.heap) r = namespaceOf st.heap r ∨
      namespaceOf (d.heapAfter st.heap) r = "" := by
  obtain ⟨o, ho⟩ := h.allocated hk
  rw [namespaceOf_of_read (d.read_heapAfter ho), namespaceOf_of_read ho]
  split
  · exact Or.inr Resource.ns_zero
  · exact Or.inl rfl

theorem Listed.processDelta {st : Informer α} (h : st.Listed) (howned : st.Owned)
    {d : Cache.Delta} (hd : d.Allocated st.heap) : (st.processDelta d).Listed := by
  have hheap := heap_processDelta st hd
  -- a key that the delta is not about stays listed as it was
  have hkeep : ∀ {k x key}, k ≠ key → st.items k = some x →
      ∃ ns, k ∈ { st with heap := d.heapAfter st.heap }.unlistStored key ns ∧
        (namespaceOf (d.heapAfter st.heap) x = ns ∨
          namespaceOf (d.heapAfter st.heap) x = "") := by
    intro k x key hne hx
    obtain ⟨ns, hmem, hns⟩ := h k x hx
    refine ⟨ns, (mem_unlistStored_of_ne hne).mpr hmem, ?_⟩
    rcases namespaceOf_heapAfter howned d hx with hsame | hwiped
    · rwa [hsame]
    · exact Or.inr hwiped
  intro k x hk
  rw [hheap]
  cases d with
  | set type r =>
    obtain ⟨o, hr⟩ := hd.read
    rw [items_set st type hr] at hk
    rw [index_set st type hr]
    by_cases hkey : k = Resource.key o
    · -- the new object is listed under its own namespace
      subst hkey
      obtain rfl := Option.some.inj ((Table.set_self ..).symm.trans hk)
      refine ⟨Resource.ns o, mem_list.mpr (Or.inr ⟨rfl, rfl⟩), Or.inl ?_⟩
      exact (namespaceOf_of_read (read_convert_fresh hr)).trans (Resource.ns_custom o)
    · obtain ⟨ns, hmem, hns⟩ := hkeep hkey ((Table.set_of_ne _ _ hkey).symm.trans hk)
      exact ⟨ns, mem_list.mpr (Or.inl hmem), hns⟩
  | deleted obj =>
    rw [items_deleted st hd] at hk
    rw [index_deleted st hd]
    have hkey : k ≠ deletionKey st.heap obj := by
      rintro rfl
      exact absurd hk (by simp)
    exact hkeep hkey (Table.of_erase hk)

theorem namespaceOf_alloc {st : Informer α} (h : st.Owned) (o : α) {k : String} {r : Ref}
    (hk : st.items k = some r) : namespaceOf (st.heap.alloc o) r = namespaceOf st.heap r := by
  rw [namespaceOf, h.read_alloc o hk, namespaceOf]

theorem listed_of_run {allowed : Informer α → Cache.Delta → Prop} {st : Informer α}
    {tr : List (Transition (Informer α) (InformerLabel α))}
    (h : Run (informerSystem α allowed) .empty tr st) : st.Listed := by
  apply invariant_of_run h
  · exact fun k r hk => absurd hk (by simp [empty])
  · intro a o howned hlisted k r hk
    obtain ⟨ns, hmem, hns⟩ := hlisted k r hk
    refine ⟨ns, hmem, ?_⟩
    rwa [namespaceOf_alloc howned o hk]
  · exact fun a d howned hlisted hd _ => hlisted.processDelta howned hd

/-! ### Deltas that share nothing -/

theorem namespaceOf_of_unshared {st : Informer α} (h : st.Owned) {d : Cache.Delta}
    (hu : Unshared st d) {k : String} {r : Ref} (hk : st.items k = some r) :
    namespaceOf (d.heapAfter st.heap) r = namespaceOf st.heap r := by
  rw [namespaceOf, read_of_unshared h hu hk, namespaceOf]

/-- What is left of an exact index when a key is removed. -/
theorem IndexExact.mem_unlistStored {st : Informer α} (h : st.IndexExact) (howned : st.Owned)
    {d : Cache.Delta} (hu : Unshared st d) {key ns k : String} :
    k ∈ { st with heap := d.heapAfter st.heap }.unlistStored key ns ↔
      k ≠ key ∧ ∃ r, st.items k = some r ∧ namespaceOf (d.heapAfter st.heap) r = ns := by
  by_cases hk : k = key
  · subst hk
    refine iff_of_false ?_ fun hne => hne.1 rfl
    intro hmem
    cases hr : st.items k with
    | none =>
      -- not stored, so not listed
      have hlist : k ∈ st.index ns := by rwa [unlistStored, hr] at hmem
      obtain ⟨r, hr', -⟩ := (h ns k).mp hlist
      exact absurd (hr.symm.trans hr') (by simp)
    | some r =>
      obtain ⟨hlist, hne⟩ := (mem_unlistStored_self hr).mp hmem
      obtain ⟨r', hr', hns⟩ := (h ns k).mp hlist
      obtain rfl := Option.some.inj (hr.symm.trans hr')
      rw [namespaceOf_of_unshared howned hu hr] at hne
      exact hne hns.symm
  · rw [mem_unlistStored_of_ne hk, h ns k, and_iff_right hk]
    refine exists_congr fun r => and_congr_right fun hr => ?_
    rw [namespaceOf_of_unshared howned hu hr]

/-- A delta that shares nothing with the indexer keeps the index exact. -/
theorem IndexExact.processDelta {st : Informer α} (h : st.IndexExact) (howned : st.Owned)
    {d : Cache.Delta} (hd : d.Allocated st.heap) (hu : Unshared st d) :
    (st.processDelta d).IndexExact := by
  intro ns k
  have hheap := heap_processDelta st hd
  rw [hheap]
  cases d with
  | set type r =>
    obtain ⟨o, hr⟩ := hd.read
    have hnew : namespaceOf ((Cache.Delta.set type r).heapAfter st.heap) st.heap.fresh
        = Resource.ns o :=
      (namespaceOf_of_read (read_convert_fresh hr)).trans (Resource.ns_custom o)
    -- the key leaves the list of the object stored before and joins the list of the new one
    rw [index_set st type hr, mem_list, h.mem_unlistStored howned hu, items_set st type hr]
    by_cases hk : k = Resource.key o
    · subst hk
      simp [hnew, eq_comm]
    · simp [Table.set_of_ne _ _ hk, hk]
  | deleted obj =>
    rw [index_deleted st hd, h.mem_unlistStored howned hu, items_deleted st hd]
    by_cases hk : k = deletionKey st.heap obj
    · simp [hk]
    · simp [Table.erase_of_ne _ hk, hk]

/-- **Without sharing the index is exact**, after every run. -/
theorem indexExact_of_run {st : Informer α}
    {tr : List (Transition (Informer α) (InformerLabel α))}
    (h : Run (informerSystem α Unshared) .empty tr st) : st.IndexExact := by
  apply invariant_of_run h
  · intro ns k
    simp [empty]
  · intro a o howned hexact ns k
    rw [hexact ns k]
    refine exists_congr fun r => and_congr_right fun hr => ?_
    rw [namespaceOf_alloc howned o hr]
  · exact fun a d howned hexact hd hu => hexact.processDelta howned hd hu

/-! ### Tombstones of stored objects -/

/-- The tombstone of what is stored under `key`. -/
abbrev tombstone (key : String) (r : Ref) : Cache.Delta := .deleted (.tombstone key (some r))

omit [Resource α] in
theorem tombstone_allocated {st : Informer α} (h : st.Owned) {key : String} {r : Ref}
    (hr : st.items key = some r) : (tombstone key r).Allocated st.heap := by
  rintro r' ⟨rfl⟩
  obtain ⟨o, ho⟩ := h.allocated hr
  rw [ho]
  rfl

/-- The tombstone takes the key out of the list of no namespace, and out of no other. -/
theorem mem_index_tombstone {st : Informer α} (h : st.Owned) {key : String} {r : Ref}
    (hr : st.items key = some r) (ns k : String) :
    k ∈ (st.processDelta (tombstone key r)).index ns ↔
      k ∈ st.index ns ∧ ¬ (ns = "" ∧ k = key) := by
  obtain ⟨o, ho⟩ := h.allocated hr
  -- the stored object is zero by the time `Delete` asks it
  have hzero : namespaceOf ((tombstone key r).heapAfter st.heap) r = "" := by
    have hself : (tombstone key r).ref = some r := rfl
    rw [namespaceOf_of_read ((tombstone key r).read_heapAfter ho), if_pos hself]
    exact Resource.ns_zero
  rw [index_deleted st (tombstone_allocated h hr), deletionKey]
  by_cases hk : k = key
  · subst hk
    rw [mem_unlistStored_self hr, hzero]
    tauto
  · rw [mem_unlistStored_of_ne hk]
    tauto

/-- The other stored objects are as they were. -/
theorem stored_tombstone {st : Informer α} (h : st.Owned) {key : String} {r : Ref}
    (hr : st.items key = some r) (ns k : String) :
    (∃ x, (st.processDelta (tombstone key r)).items k = some x ∧
        namespaceOf (st.processDelta (tombstone key r)).heap x = ns) ↔
      k ≠ key ∧ ∃ x, st.items k = some x ∧ namespaceOf st.heap x = ns := by
  have hd := tombstone_allocated h hr
  rw [items_deleted st hd, heap_processDelta st hd, deletionKey]
  by_cases hk : k = key
  · simp [hk]
  · rw [Table.erase_of_ne _ hk, and_iff_right hk]
    refine exists_congr fun x => and_congr_right fun hx => ?_
    -- no two keys share an object, so this one has not been wiped
    have hne : (tombstone key r).ref ≠ some x := by
      rintro ⟨rfl⟩
      exact hk (h.unshared hx hr)
    obtain ⟨o', ho'⟩ := h.allocated hx
    rw [namespaceOf_of_read ((tombstone key r).read_heapAfter ho'), if_neg hne,
      namespaceOf_of_read ho']

/-- If the index is exact afterwards, the key was listed under no namespace. -/
theorem ns_eq_empty_of_exact {st : Informer α} (h : st.Owned) {key : String} {r : Ref}
    (hr : st.items key = some r) (hexact : (st.processDelta (tombstone key r)).IndexExact)
    {ns : String} (hmem : key ∈ st.index ns) : ns = "" := by
  by_contra hns
  have hleft : key ∈ (st.processDelta (tombstone key r)).index ns :=
    (mem_index_tombstone h hr ns key).mpr ⟨hmem, fun hcontra => hns hcontra.1⟩
  -- the key is still listed, and nothing is stored under it
  have hstored := (stored_tombstone h hr ns key).mp ((hexact ns key).mp hleft)
  exact hstored.1 rfl

/-- What was wrong before about another key still is. -/
theorem exact_of_ne {st : Informer α} (h : st.Owned) {key : String} {r : Ref}
    (hr : st.items key = some r) (hexact : (st.processDelta (tombstone key r)).IndexExact)
    (ns : String) {k : String} (hk : k ≠ key) :
    k ∈ st.index ns ↔ ∃ x, st.items k = some x ∧ namespaceOf st.heap x = ns := by
  have hiff := hexact ns k
  rw [mem_index_tombstone h hr, stored_tombstone h hr,
    and_iff_left fun hcontra => hk hcontra.2, and_iff_right hk] at hiff
  exact hiff

/-- An object in no namespace is found in the list it is in. -/
theorem IndexExact.tombstone {st : Informer α} (hexact : st.IndexExact) (h : st.Owned)
    {key : String} {r : Ref} (hr : st.items key = some r) (hempty : namespaceOf st.heap r = "") :
    (st.processDelta (tombstone key r)).IndexExact := by
  intro ns k
  rw [mem_index_tombstone h hr, stored_tombstone h hr, hexact ns k]
  constructor
  · rintro ⟨⟨x, hx, hns⟩, hnot⟩
    refine ⟨?_, x, hx, hns⟩
    rintro rfl
    obtain rfl := Option.some.inj (hr.symm.trans hx)
    exact hnot ⟨hns.symm.trans hempty, rfl⟩
  · rintro ⟨hk, x, hx, hns⟩
    exact ⟨⟨x, hx, hns⟩, fun hcontra => hk hcontra.2⟩

end Informer

/-- **Tombstones and the index.** After the tombstone of a stored object the index is
exact only if it was before and the object is in no namespace. -/
theorem tombstone_indexExact_iff {allowed : Informer α → Cache.Delta → Prop} {st : Informer α}
    (h : (informerSystem α allowed).Reachable st) {key : String} {r : Ref}
    (hr : st.items key = some r) :
    (st.processDelta (.deleted (.tombstone key (some r)))).IndexExact ↔
      st.IndexExact ∧ Informer.namespaceOf st.heap r = "" := by
  obtain ⟨tr, hrun⟩ := h
  have howned := (Informer.owned_of_run hrun).1
  constructor
  · intro hexact
    have hkey : ∀ {ns}, key ∈ st.index ns → ns = "" :=
      Informer.ns_eq_empty_of_exact howned hr hexact
    -- the key is listed somewhere, so the object was stored in no namespace
    obtain ⟨ns₀, hmem₀, hns₀⟩ := Informer.listed_of_run hrun key r hr
    obtain rfl := hkey hmem₀
    have hempty : Informer.namespaceOf st.heap r = "" := hns₀.elim id id
    refine ⟨fun ns k => ?_, hempty⟩
    by_cases hk : k = key
    · subst hk
      constructor
      · intro hmem
        exact ⟨r, hr, by rw [hempty, hkey hmem]⟩
      · rintro ⟨x, hx, rfl⟩
        obtain rfl := Option.some.inj (hr.symm.trans hx)
        rwa [hempty]
    · exact Informer.exact_of_ne howned hr hexact ns hk
  · rintro ⟨hexact, hempty⟩
    exact hexact.tombstone howned hr hempty

/-- An object without a namespace goes without a trace. -/
theorem tombstone_indexExact_unnamespaced :
    ((Informer.holding { rawService "web" with
      objectMeta := { rawMeta "web" [] with ns := "" } }).processDelta
        (.deleted (.tombstone "web" (some 1)))).IndexExact := by
  obtain ⟨tr, hrun, -⟩ := run_holding
    { rawService "web" with objectMeta := { rawMeta "web" [] with ns := "" } }
  exact (tombstone_indexExact_iff ⟨tr, hrun⟩ rfl).mpr ⟨Informer.indexExact_of_run hrun, rfl⟩

/-- The key of a deleted service stays in the list of its namespace. -/
theorem tombstone_leaves_web :
    (informerSystem V1.Service Unshared).Reachable (.holding (rawService "web")) ∧
    (Informer.holding (rawService "web")).items "default/web" = some 1 ∧
    (Informer.holding (rawService "web")).IndexExact ∧
    ((Informer.holding (rawService "web")).processDelta
      (.deleted (.tombstone "default/web" (some 1)))).items "default/web" = none ∧
    ((Informer.holding (rawService "web")).processDelta
      (.deleted (.tombstone "default/web" (some 1)))).index "default" = ["default/web"] ∧
    ¬ ((Informer.holding (rawService "web")).processDelta
      (.deleted (.tombstone "default/web" (some 1)))).IndexExact := by
  obtain ⟨tr, hrun, -⟩ := run_holding (rawService "web")
  refine ⟨⟨tr, hrun⟩, rfl, Informer.indexExact_of_run hrun, rfl, rfl, fun hexact => ?_⟩
  obtain ⟨r, hr, -⟩ := (hexact "default" "default/web").mp (by decide)
  exact Option.some_ne_none r hr.symm

end EProxy
