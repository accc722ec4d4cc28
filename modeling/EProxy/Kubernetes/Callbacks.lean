import EProxy.Kubernetes.Process

/-!
# The callbacks of an informer replay its indexer

A handler that keeps a map of its own, inserting on `OnAdd`, replacing on `OnUpdate` and
removing on `OnDelete`, has the items of the indexer in it after every delta, as long as
the deltas bring objects the indexer does not hold (`Unshared`). This is what the watch
delivers: each event is decoded into a new object.

The conversion overwrites the object of a delta in place before the indexer is asked for
the old one. `read_of_unshared` says why this does no harm here: what the indexer holds
keeps its contents. The result is about the batches given to `Process`, at every delta of
each of them (`callbacks_replay_store`).
-/

namespace EProxy

open Framework

variable {α : Type} [Resource α]

/-! ### Replaying -/

/-- A handler with a map of its own. -/
def Callback.replay (seen : Table String (Ref × α)) : Callback α → Table String (Ref × α)
  | .onAdd r o => seen.set (Resource.key o) (r, o)
  | .onUpdate _ _ r o => seen.set (Resource.key o) (r, o)
  | .onDelete _ key => seen.erase key

/-- The map such a handler has after some callbacks. -/
def replay (callbacks : List (Callback α)) : Table String (Ref × α) :=
  callbacks.foldl Callback.replay .empty

/-- The items of the indexer, each pointer with what it points to. -/
def Informer.contents (st : Informer α) : Table String (Ref × α) := fun k =>
  (st.items k).bind fun r => (st.heap.read r).map fun o => (r, o)

/-- The object a step puts into the indexer. -/
def setObject (t : Transition (Informer α) (InformerLabel α)) : Option α :=
  match t.label with
  | .process (.set _ r) => t.pre.heap.read r
  | _ => none

/-- The object of the last delta for a key that is not a deletion. -/
def lastSet (tr : List (Transition (Informer α) (InformerLabel α))) (key : String) : Option α :=
  ((tr.filterMap setObject).filter fun o => Resource.key o = key).getLast?

/-- The callback is the right one for a delta handled in `st`: `OnAdd` for a key that is
not there, `OnUpdate` with the object that is, `OnDelete` for a deletion. -/
def Callback.Answers (st : Informer α) : Cache.Delta → Callback α → Prop
  | .set _ _, .onAdd _ o => st.items (Resource.key o) = none
  | .set _ _, .onUpdate old oldObj _ o =>
    st.items (Resource.key o) = some old ∧ oldObj = st.heap.read old
  | .deleted _, .onDelete _ _ => True
  | _, _ => False

/-- The object of the delta is not one the indexer holds. -/
def Unshared (st : Informer α) (d : Cache.Delta) : Prop :=
  ∀ r ∈ d.ref, ∀ k, st.items k ≠ some r

theorem replay_concat (callbacks : List (Callback α)) (c : Callback α) :
    replay (callbacks ++ [c]) = c.replay (replay callbacks) :=
  List.foldl_concat ..

theorem lastSet_concat (tr : List (Transition (Informer α) (InformerLabel α)))
    (t : Transition (Informer α) (InformerLabel α)) (key : String) :
    lastSet (tr ++ [t]) key =
      match setObject t with
      | some o => if Resource.key o = key then some o else lastSet tr key
      | none => lastSet tr key := by
  rw [lastSet, List.filterMap_append, List.filter_append, List.getLast?_append, lastSet]
  cases hset : setObject t with
  | none => simp [hset]
  | some o =>
    by_cases hk : Resource.key o = key
    · simp [hset, hk]
    · simp [hset, hk]

namespace Informer

/-! ### What the indexer holds keeps its contents -/

theorem read_of_unshared {st : Informer α} (h : st.Owned) {d : Cache.Delta}
    (hd : Unshared st d) {k : String} {r : Ref} (hk : st.items k = some r) :
    (d.heapAfter st.heap).read r = st.heap.read r := by
  obtain ⟨o, ho⟩ := h.allocated hk
  have hne : d.ref ≠ some r := fun href => hd r href k hk
  rw [d.read_heapAfter ho, if_neg hne, ho]

omit [Resource α] in
theorem contents_of_read {st : Informer α} {k : String} {r : Ref} {o : α}
    (hk : st.items k = some r) (ho : st.heap.read r = some o) : st.contents k = some (r, o) := by
  rw [contents, hk, Option.bind_some, ho, Option.map_some]

omit [Resource α] in
theorem contents_of_none {st : Informer α} {k : String} (hk : st.items k = none) :
    st.contents k = none := by
  rw [contents, hk, Option.bind_none]

omit [Resource α] in
/-- Where the items agree and what they point to does, so do the contents. -/
theorem contents_congr {st st' : Informer α} {k : String} (hitems : st'.items k = st.items k)
    (hheap : ∀ r, st.items k = some r → st'.heap.read r = st.heap.read r) :
    st'.contents k = st.contents k := by
  rw [contents, contents, hitems]
  cases hk : st.items k with
  | none => rfl
  | some r => rw [Option.bind_some, Option.bind_some, hheap r hk]

omit [Resource α] in
theorem contents_receive {st : Informer α} (h : st.Owned) (o : α) :
    { st with heap := st.heap.alloc o }.contents = st.contents := by
  funext k
  refine contents_congr ?_ ?_
  · rfl
  · exact fun r hk => h.read_alloc o hk

/-! ### One step -/

/-- A delta issues one callback, and the right one. -/
theorem callback_of_delta {st : Informer α} (h : st.Owned) {d : Cache.Delta}
    (hd : d.Allocated st.heap) (hu : Unshared st d) :
    ∃ c, (st.processDelta d).callbacks = st.callbacks ++ [c] ∧ c.Answers st d := by
  cases d with
  | set type r =>
    obtain ⟨o, hr⟩ := hd.read
    rw [processDelta_set st type hr]
    refine ⟨_, rfl, ?_⟩
    unfold setCallback
    split
    · next old hold => exact ⟨hold, read_of_unshared h hu hold⟩
    · next hnone => exact hnone
  | deleted obj =>
    rw [processDelta_deleted st hd]
    exact ⟨_, rfl, trivial⟩

/-- A delta that is not a deletion changes the contents at the key of its object only. -/
theorem contents_set {st : Informer α} (h : st.Owned) {type : Cache.DeltaType} {r : Ref} {o : α}
    (hr : st.heap.read r = some o) (hu : Unshared st (.set type r)) :
    (st.processDelta (.set type r)).contents
      = st.contents.set (Resource.key o) (st.heap.fresh, Resource.custom o) := by
  have hheap : (st.processDelta (.set type r)).heap = (convert st.heap r).2 := by
    rw [processDelta_set st type hr]
  have hitems := items_set st type hr
  funext k
  by_cases hk : k = Resource.key o
  · subst hk
    rw [Table.set_self]
    refine contents_of_read ?_ ?_
    · rw [hitems, Table.set_self]
    · rw [hheap]
      exact read_convert_fresh hr
  · -- another object is read as before: the conversion wrote to the delta's only
    rw [Table.set_of_ne _ _ hk]
    refine contents_congr ?_ fun x hx => ?_
    · rw [hitems, Table.set_of_ne _ _ hk]
    · rw [hheap]
      exact read_of_unshared h hu hx

/-- A deletion changes the contents at its key only. -/
theorem contents_deleted {st : Informer α} (h : st.Owned) {obj : Cache.Deleted}
    (hd : (Cache.Delta.deleted obj).Allocated st.heap) (hu : Unshared st (.deleted obj)) :
    (st.processDelta (.deleted obj)).contents = st.contents.erase (deletionKey st.heap obj) := by
  have hitems := items_deleted st hd
  funext k
  by_cases hk : k = deletionKey st.heap obj
  · rw [hk, Table.erase_self]
    refine contents_of_none ?_
    rw [hitems, Table.erase_self]
  · rw [Table.erase_of_ne _ hk]
    refine contents_congr ?_ fun x hx => ?_
    · rw [hitems, Table.erase_of_ne _ hk]
    · rw [heap_processDelta st hd]
      exact read_of_unshared h hu hx

/-- What a delta does to the contents, the handler's map does on its callback. -/
theorem replay_of_delta {st : Informer α} (h : st.Owned) {d : Cache.Delta}
    (hd : d.Allocated st.heap) (hu : Unshared st d) (hst : replay st.callbacks = st.contents) :
    replay (st.processDelta d).callbacks = (st.processDelta d).contents := by
  cases d with
  | set type r =>
    obtain ⟨o, hr⟩ := hd.read
    rw [contents_set h hr hu, processDelta_set st type hr, replay_concat, hst]
    -- both calls of the handler insert
    unfold setCallback
    split <;> rw [Callback.replay, Resource.key_custom]
  | deleted obj =>
    rw [contents_deleted h hd hu, processDelta_deleted st hd, replay_concat, hst, Callback.replay]

/-- The stored objects are the projections of what came last. -/
theorem projected_of_delta {st : Informer α} (h : st.Owned) {d : Cache.Delta}
    (hd : d.Allocated st.heap) (hu : Unshared st d)
    {tr : List (Transition (Informer α) (InformerLabel α))}
    (hst : ∀ k r, st.items k = some r →
      ∃ o, lastSet tr k = some o ∧ st.heap.read r = some (Resource.custom o)) :
    ∀ k r, (st.processDelta d).items k = some r →
      ∃ o, lastSet (tr ++ [⟨st, .process d, st.processDelta d⟩]) k = some o ∧
        (st.processDelta d).heap.read r = some (Resource.custom o) := by
  intro k x hk
  rw [heap_processDelta st hd, lastSet_concat]
  cases d with
  | set type r =>
    obtain ⟨o, hr⟩ := hd.read
    rw [items_set st type hr] at hk
    rw [show setObject ⟨st, .process (.set type r), st.processDelta (.set type r)⟩ = some o
      from hr]
    -- at its own key the new object is the projection, elsewhere nothing has changed
    by_cases hkey : Resource.key o = k
    · subst hkey
      obtain rfl := Option.some.inj ((Table.set_self ..).symm.trans hk)
      exact ⟨o, if_pos rfl, read_convert_fresh hr⟩
    · have hold : st.items k = some x := (Table.set_of_ne _ _ (Ne.symm hkey)).symm.trans hk
      obtain ⟨o', hlast, hread⟩ := hst k x hold
      exact ⟨o', (if_neg hkey).trans hlast, (read_of_unshared h hu hold).trans hread⟩
  | deleted obj =>
    rw [items_deleted st hd] at hk
    have hold : st.items k = some x := Table.of_erase hk
    obtain ⟨o', hlast, hread⟩ := hst k x hold
    exact ⟨o', hlast, (read_of_unshared h hu hold).trans hread⟩

end Informer

/-! ### Whole runs -/

/-- An informer that has been told of one object. -/
def Informer.holding (o : α) : Informer α :=
  { Informer.empty with heap := Heap.empty.alloc o }.processDelta (.set .added 0)

theorem run_holding (o : α) :
    ∃ tr, Run (informerSystem α Unshared) .empty tr (.holding o) ∧
      tr.map Transition.label = [.receive o, .process (.set .added 0)] := by
  have hadded : (informerSystem α Unshared).step
      { Informer.empty with heap := Heap.empty.alloc o } (.process (.set .added 0))
      (.holding o) := by
    refine ⟨?_, ?_, rfl⟩
    · rintro r ⟨rfl⟩
      rfl
    · rintro r ⟨rfl⟩ k hk
      exact absurd hk (by simp [Informer.empty])
  refine ⟨_, ((Run.nil _).snoc ?_).snoc hadded, rfl⟩
  rfl

section Runs

variable {tr : List (Transition (Informer α) (InformerLabel α))} {st : Informer α}

/-- The indexer and what came last, after every run of single deltas. -/
theorem replay_of_run (h : Run (informerSystem α Unshared) .empty tr st) :
    replay st.callbacks = st.contents ∧
    ∀ k r, st.items k = some r →
      ∃ o, lastSet tr k = some o ∧ st.heap.read r = some (Resource.custom o) := by
  induction h with
  | nil =>
    refine ⟨?_, fun k r hk => absurd hk (by simp [Informer.empty])⟩
    funext k
    exact (Informer.contents_of_none rfl).symm
  | @snoc st₁ st₂ tr l hrun hstep ih =>
    obtain ⟨hreplay, hproj⟩ := ih
    have howned : st₁.Owned := (Informer.owned_of_run hrun).1
    cases l with
    | receive o =>
      obtain rfl : st₂ = { st₁ with heap := st₁.heap.alloc o } := hstep
      constructor
      · rw [Informer.contents_receive howned]
        exact hreplay
      · intro k r hk
        obtain ⟨o', hlast, hread⟩ := hproj k r hk
        exact ⟨o', (lastSet_concat ..).trans hlast, (howned.read_alloc o hk).trans hread⟩
    | process d =>
      obtain ⟨hd, hu, rfl⟩ := hstep
      exact ⟨Informer.replay_of_delta howned hd hu hreplay,
        Informer.projected_of_delta howned hd hu hproj⟩

end Runs

/-- **The callbacks replay the indexer.** After every sequence of batches of unshared deltas
and at every delta of the next one: the map of a handler that applies the callbacks is the
indexer's, what is stored are the projections of the objects that came last, and the delta
has issued one callback, `OnAdd` for a new key only and `OnUpdate` with the object that was
stored. -/
theorem callbacks_replay_store {tr : List (Transition (Informer α) (BatchLabel α))}
    {st : Informer α} (h : Run (batchSystem α Unshared) .empty tr st)
    {before after : List Cache.Delta} {d : Cache.Delta}
    (hbatch : st.Accepts Unshared (before ++ d :: after)) :
    replay (st.process (before ++ [d])).callbacks = (st.process (before ++ [d])).contents ∧
    (∀ k r, (st.process (before ++ [d])).items k = some r →
      ∃ o, lastSet (tr.flatMap unbatch ++ deltaSteps st (before ++ [d])) k = some o ∧
        (st.process (before ++ [d])).heap.read r = some (Resource.custom o)) ∧
    ∃ c, (st.process (before ++ [d])).callbacks = (st.process before).callbacks ++ [c] ∧
      c.Answers (st.process before) d := by
  obtain ⟨hbefore, ⟨hd, hu⟩, -⟩ := Informer.accepts_append.mp hbatch
  have hupto : st.Accepts Unshared (before ++ [d]) :=
    Informer.accepts_append.mpr ⟨hbefore, ⟨hd, hu⟩, trivial⟩
  obtain ⟨hreplay, hproj⟩ := replay_of_run (run_process (run_unbatch h) hupto)
  refine ⟨hreplay, hproj, ?_⟩
  rw [Informer.process_append]
  exact Informer.callback_of_delta
    (Informer.owned_of_run (run_process (run_unbatch h) hbefore)).1 hd hu

/-- A batch whose objects the indexer does not hold when it comes: what `Process` stores in
the meantime are new objects. -/
theorem Informer.accepts_of_new {st : Informer α} {deltas : List Cache.Delta}
    (h : ∀ d ∈ deltas, d.Allocated st.heap ∧ Unshared st d) : st.Accepts Unshared deltas := by
  induction deltas generalizing st with
  | nil => trivial
  | cons d rest ih =>
    have hd := (h d List.mem_cons_self).1
    refine ⟨h d List.mem_cons_self, ih fun d' hd' => ?_⟩
    obtain ⟨halloc, hunshared⟩ := h d' (List.mem_cons_of_mem _ hd')
    refine ⟨fun r hr => ?_, fun r hr k hk => ?_⟩
    · obtain ⟨o, ho⟩ := Option.isSome_iff_exists.mp (halloc r hr)
      rw [heap_processDelta st hd, d.read_heapAfter ho]
      rfl
    · -- what is stored was stored before, or is new
      cases d with
      | set type x =>
        obtain ⟨o, hx⟩ := hd.read
        rw [items_set st type hx, Table.set_apply] at hk
        split at hk
        · obtain rfl := Option.some.inj hk
          have hfresh := halloc _ hr
          rw [Heap.read_fresh] at hfresh
          exact absurd hfresh (by simp)
        · exact hunshared r hr k hk
      | deleted obj =>
        rw [items_deleted st hd] at hk
        exact hunshared r hr k (Table.of_erase hk)

/-- An informer that has received some objects and no batch. -/
def Informer.received (os : List α) : Informer α := { Informer.empty with heap := ⟨os⟩ }

theorem run_received (os : List α) :
    ∃ tr, Run (batchSystem α Unshared) .empty tr (.received os) := by
  induction os using List.reverseRecOn with
  | nil => exact ⟨[], .nil _⟩
  | append_singleton os o ih =>
    obtain ⟨tr, hrun⟩ := ih
    have hstep : (batchSystem α Unshared).step (.received os) (.receive o)
        (.received (os ++ [o])) := rfl
    exact ⟨_, hrun.snoc hstep⟩

/-- A batch of every kind of delta: two objects are set, one is deleted, one is set and one
deleted by a tombstone. -/
def mixedBatch : List Cache.Delta :=
  [.set .added 0, .set .updated 1, .deleted (.object 2), .set .replaced 3,
    .deleted (.tombstone "default/web" (some 4))]

theorem accepts_mixedBatch (a b c d e : α) :
    (Informer.received [a, b, c, d, e]).Accepts Unshared mixedBatch := by
  refine Informer.accepts_of_new fun delta hdelta => ⟨fun r hr => ?_, fun r _ k hk => ?_⟩
  · simp only [mixedBatch, List.mem_cons, List.not_mem_nil, or_false] at hdelta
    rcases hdelta with rfl | rfl | rfl | rfl | rfl <;> obtain rfl := Option.some.inj hr <;> rfl
  · exact absurd hk (by simp [Informer.received, Informer.empty])

/-- At every delta of the batch, for services and for slices. -/
theorem callbacks_replay_web :
    (∀ before d after, mixedBatch = before ++ d :: after →
      let st := Informer.received (List.replicate 5 (rawService "web"))
      replay (st.process (before ++ [d])).callbacks = (st.process (before ++ [d])).contents ∧
      ∃ c, (st.process (before ++ [d])).callbacks = (st.process before).callbacks ++ [c] ∧
        c.Answers (st.process before) d) ∧
    ∀ before d after, mixedBatch = before ++ d :: after →
      let st := Informer.received (List.replicate 5 (rawSlice "web"))
      replay (st.process (before ++ [d])).callbacks = (st.process (before ++ [d])).contents ∧
      ∃ c, (st.process (before ++ [d])).callbacks = (st.process before).callbacks ++ [c] ∧
        c.Answers (st.process before) d := by
  obtain ⟨tr, hrun⟩ := run_received (List.replicate 5 (rawService "web"))
  obtain ⟨tr', hrun'⟩ := run_received (List.replicate 5 (rawSlice "web"))
  constructor
  · intro before d after hsplit
    have hbatch := accepts_mixedBatch (rawService "web") (rawService "web") (rawService "web")
      (rawService "web") (rawService "web")
    rw [hsplit] at hbatch
    obtain ⟨hreplay, -, hcallback⟩ := callbacks_replay_store hrun hbatch
    exact ⟨hreplay, hcallback⟩
  · intro before d after hsplit
    have hbatch := accepts_mixedBatch (rawSlice "web") (rawSlice "web") (rawSlice "web")
      (rawSlice "web") (rawSlice "web")
    rw [hsplit] at hbatch
    obtain ⟨hreplay, -, hcallback⟩ := callbacks_replay_store hrun' hbatch
    exact ⟨hreplay, hcallback⟩

end EProxy
