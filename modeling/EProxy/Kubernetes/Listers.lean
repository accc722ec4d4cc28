import EProxy.Kubernetes.Controller
import EProxy.Kubernetes.Feed

/-!
# The listers behind the queue

The handlers are modelled over a `Store` of API objects, and so is `Enqueue`. Here this is tied to
an informer behind its queue: as long as what is heard reads as API objects, each step of the
informer is a row of changes of the store, and the handlers that are registered are called once
for each of them, with an object of that key (`Feed.step_refines`). What waits on the queue is
what has been heard (`Legible`), and a struct reads as one API object only (`View.Functional`), so
that an informer shows one store.
-/

namespace EProxy

open Framework DeltaQueue

/-! ### Keys -/

/-- What the handlers that are registered pass to `Enqueue` has this key on the queue. A tombstone
has no metadata. -/
def Callback.queueKey {α : Type} [Resource α] (typep : String) : Callback α → Option String
  | .onAdd _ o | .onUpdate _ _ _ o => some (typep ++ "/" ++ Resource.key o)
  | .onDelete (.object _) key => some (typep ++ "/" ++ key)
  | .onDelete (.tombstone _ _) _ => none

/-! ### What an informer shows -/

section Views

variable {α β : Type} [Resource α] [Object β] {view : View α β} {st st' : Informer α}
  {store store' : Store β}

/-- A struct reads as one object at most. -/
def View.Functional (view : View α β) : Prop :=
  ∀ {v o o'}, view.reads v o → view.reads v o' → o = o'

theorem ObjectMeta.Names.unique {m : ObjectMeta} {ns ns' name name' : Name} (h : m.Names ns name)
    (h' : m.Names ns' name') : ns = ns' ∧ name = name' :=
  ⟨Name.ext (h.1.symm.trans h'.1), Name.ext (h.2.symm.trans h'.2)⟩

theorem serviceView_functional : serviceView.Functional := by
  rintro v ⟨name, ns, ip, ports, _⟩ ⟨name', ns', ip', ports', _⟩ ⟨hnames, hip, hports⟩
    ⟨hnames', hip', hports'⟩
  obtain ⟨rfl, rfl⟩ := hnames.unique hnames'
  obtain rfl := hip.symm.trans hip'
  obtain rfl := hports.symm.trans hports'
  rfl

theorem sliceView_functional : sliceView.Functional := by
  rintro v ⟨name, ns, labels, deletion, eps, ports, _⟩ ⟨name', ns', labels', deletion', eps',
    ports', _⟩ ⟨hnames, hlabels, hdeletion, heps, hports⟩
    ⟨hnames', hlabels', hdeletion', heps', hports'⟩
  obtain ⟨rfl, rfl⟩ := hnames.unique hnames'
  -- the values of the labels are names, which their texts determine
  have hinj : Function.Injective fun l : String × Name => (l.1, l.2.text) := by
    intro a b hab
    obtain ⟨hfst, hsnd⟩ := Prod.ext_iff.mp hab
    exact Prod.ext hfst (Name.ext hsnd)
  obtain rfl := List.map_injective_iff.mpr hinj (hlabels.symm.trans hlabels')
  obtain rfl := hdeletion.symm.trans hdeletion'
  obtain rfl := heps.symm.trans heps'
  obtain rfl := hports.symm.trans hports'
  rfl

theorem View.refines_iff : view.Refines st store ↔
    ∀ k, Option.Rel view.reads (st.values k) (store.objects k) := by
  refine forall_congr' fun k => ?_
  rw [Informer.values]
  cases st.contents k <;> cases store.objects k <;> simp

theorem View.Refines.congr (h : view.Refines st store) (hvalues : st'.values = st.values) :
    view.Refines st' store := by
  rw [View.refines_iff, hvalues]
  exact View.refines_iff.mp h

/-- The store has what the indexer has. -/
theorem View.Refines.objects_of_values (h : view.Refines st store) {k : String} {v : α}
    (hk : st.values k = some v) : ∃ o, store.objects k = some o ∧ view.reads v o := by
  have hrel := View.refines_iff.mp h k
  rw [hk] at hrel
  cases hfound : store.objects k with
  | none =>
    rw [hfound] at hrel
    exact absurd hrel Option.not_rel_some_none
  | some o =>
    rw [hfound] at hrel
    exact ⟨o, rfl, Option.rel_some_some.mp hrel⟩

/-- The indexer has what the store has. -/
theorem View.Refines.values_of_objects (h : view.Refines st store) {k : String} {o : β}
    (hk : store.objects k = some o) : ∃ v, st.values k = some v ∧ view.reads v o := by
  have hrel := View.refines_iff.mp h k
  rw [hk] at hrel
  cases hfound : st.values k with
  | none =>
    rw [hfound] at hrel
    exact absurd hrel Option.not_rel_none_some
  | some v =>
    rw [hfound] at hrel
    exact ⟨v, rfl, Option.rel_some_some.mp hrel⟩

/-- **An informer shows one store.** -/
theorem View.Refines.unique (h : view.Refines st store) (h' : view.Refines st store')
    (hview : view.Functional) : store = store' := by
  have hobjects : ∀ {s s' : Store β} {k o}, view.Refines st s → view.Refines st s' →
      s.objects k = some o → s'.objects k = some o := by
    intro s s' k o hs hs' hk
    obtain ⟨v, hv, hreads⟩ := hs.values_of_objects hk
    obtain ⟨o', hk', hreads'⟩ := hs'.objects_of_values hv
    rw [hk', hview hreads' hreads]
  refine Store.ext (funext fun k => Option.ext fun o => ?_)
  exact ⟨hobjects h h', hobjects h' h⟩

end Views

/-! ### One delta, one change -/

section Simulation

variable {α β : Type} [Resource α] [Object β] {view : View α β} {st : Informer α}
  {store : Store β} {k : String} {d : Cache.Delta} {δ : Delta β} {ds : List Cache.Delta}

/-- What is under the key of a change after it. -/
def Delta.result : Delta β → Option β
  | .set o => some o
  | .deleted _ | .deletedFinalStateUnknown _ => none

theorem Store.objects_process (store : Store β) (δ : Delta β) :
    (store.process δ).objects = store.objects.assign δ.key δ.result := by
  cases δ <;> rfl

theorem View.Stands.key_eq {h : Heap α} (hδ : view.Stands h d δ) : δ.key = d.key h := by
  cases hδ with
  | set hr hv =>
    rw [Cache.Delta.key, Informer.deletionKey, hr]
    exact (view.key_eq hv).symm
  | deleted hr hv =>
    rw [Cache.Delta.key, Informer.deletionKey, hr]
    exact (view.key_eq hv).symm
  | tombstone => rfl

theorem View.Stands.result_rel {h : Heap α} (hδ : view.Stands h d δ) :
    Option.Rel view.reads (d.result h) δ.result := by
  cases hδ with
  | set hr hv =>
    rw [Cache.Delta.result, hr]
    exact .some (view.custom hv)
  | deleted hr hv => exact .none
  | tombstone => exact .none

theorem View.Stands.congr {h h' : Heap α} (hδ : view.Stands h d δ)
    (hread : ∀ {r}, d.own = some r → h'.read r = h.read r) : view.Stands h' d δ := by
  cases hδ with
  | set hr hv => exact .set ((hread rfl).trans hr) hv
  | deleted hr hv => exact .deleted ((hread rfl).trans hr) hv
  | tombstone => exact .tombstone

/-- The indexer keeps up with the store. -/
theorem View.Refines.processPlaced (h : view.Refines st store) (howned : st.Owned)
    (hplaced : Placed st k d) (hδ : view.Stands st.heap d δ) :
    view.Refines (st.processDelta d) (store.process δ) := by
  rw [View.refines_iff, hplaced.values_processDelta howned, Store.objects_process, hδ.key_eq,
    hplaced.key]
  intro k'
  by_cases hk : k' = k
  · rw [hk, Table.assign_self, Table.assign_self]
    exact hδ.result_rel
  · rw [Table.assign_of_ne _ _ hk, Table.assign_of_ne _ _ hk]
    exact View.refines_iff.mp h k'

/-- The handler is called, and puts the key of the change on the queue. -/
theorem View.Stands.callback (hδ : view.Stands st.heap d δ) (hd : d.Allocated st.heap)
    (typep : String) :
    ∃ call, (st.processDelta d).callbacks = st.callbacks ++ [call] ∧
      call.queueKey typep = δ.queueKey typep := by
  cases hδ with
  | @set type r v o hr hv =>
    have hkey : Resource.key (Resource.custom v) = Object.key o := view.key_eq (view.custom hv)
    rw [Informer.processDelta_set st type hr]
    refine ⟨_, rfl, ?_⟩
    -- `OnAdd` or `OnUpdate`: the new object has the key either way
    unfold Informer.setCallback
    split
    · rw [Callback.queueKey, hkey, Delta.queueKey]
    · rw [Callback.queueKey, hkey, Delta.queueKey]
  | @deleted r v o hr hv =>
    have hkey : Informer.deletionKey st.heap (.object r) = Object.key o := by
      rw [Informer.deletionKey, hr]
      exact view.key_eq hv
    rw [Informer.processDelta_deleted st hd, hkey]
    exact ⟨_, rfl, rfl⟩
  | @tombstone key obj =>
    rw [Informer.processDelta_deleted st hd]
    refine ⟨_, rfl, ?_⟩
    -- `OnDelete` is called with the tombstone itself, which has no key
    cases obj <;> rfl

/-- **A batch** is a row of changes, with one call for each. -/
theorem View.Refines.process (h : view.Refines st store) (howned : st.Owned)
    (hds : ∀ d ∈ ds, Placed st k d ∧ ∃ δ, view.Stands st.heap d δ)
    (hspares : ds.Pairwise Cache.Delta.Spares) (typep : String) :
    ∃ (deltas : List (Delta β)) (calls : List (Callback α)),
      view.Refines (st.process ds) (deltas.foldl Store.process store) ∧
      (st.process ds).callbacks = st.callbacks ++ calls ∧
      calls.map (Callback.queueKey typep) = deltas.map (Delta.queueKey typep) := by
  induction ds generalizing st store with
  | nil => exact ⟨[], [], h, (List.append_nil _).symm, rfl⟩
  | cons d ds ih =>
    obtain ⟨hfirst, hspares⟩ := List.pairwise_cons.mp hspares
    obtain ⟨hplaced, δ, hδ⟩ := hds d List.mem_cons_self
    have hd := hplaced.allocated
    obtain ⟨call, hcall, hkey⟩ := hδ.callback hd typep
    -- the rest waits as before
    have hrest : ∀ x ∈ ds, Placed (st.processDelta d) k x ∧
        ∃ δ, view.Stands (st.processDelta d).heap x δ := by
      intro x hx
      obtain ⟨hx', δ', hδ'⟩ := hds x (List.mem_cons_of_mem _ hx)
      refine ⟨hx'.processDelta hd (hfirst x hx), δ', hδ'.congr fun hr => ?_⟩
      exact hx'.allocated.read_processDelta hd (hfirst x hx) hr
    obtain ⟨deltas, calls, hrefines, hcalls, hkeys⟩ :=
      ih (h.processPlaced howned hplaced hδ) (howned.processDelta hd) hrest hspares
    refine ⟨δ :: deltas, call :: calls, hrefines, hcalls.trans ?_, ?_⟩
    · rw [hcall, List.append_assoc, List.singleton_append]
    · rw [List.map_cons, List.map_cons, hkey, hkeys]

end Simulation

/-! ### What waits has been heard -/

section Waiting

variable {F α : Type} [Resource α] [DeltaQueue F String Cache.Delta] {P : α → Prop}

/-- The objects that wait on the queue satisfy `P`. -/
def Legible (P : α → Prop) (st : Informer α) (fifo : F) : Prop :=
  ∀ {k d r}, d ∈ items fifo k → d.own = some r → ∃ v, st.heap.read r = some v ∧ P v

theorem legible_maintained :
    Maintained P fun (st : Informer α) (fifo : F) => Fed st fifo ∧ Legible P st fifo where
  congr h hitems := ⟨h.1.congr hitems, fun hd => h.2 (congrFun hitems _ ▸ hd)⟩
  receive o h := by
    refine ⟨h.1.receive o, fun hd hr => ?_⟩
    rw [(h.1.placed hd).allocated.read_receive o (Cache.Delta.ref_of_own hr)]
    exact h.2 hd hr
  addNew {st fifo k d o} h ho hown hkey := by
    refine ⟨h.1.addNew hown hkey, fun hd hr => ?_⟩
    rcases mem_items_add hd with hd | heq
    · rw [(h.1.placed hd).allocated.read_receive o (Cache.Delta.ref_of_own hr)]
      exact h.2 hd hr
    · -- the object that has just been decoded
      obtain ⟨-, rfl⟩ := Prod.ext_iff.mp heq
      obtain rfl := Option.some.inj (hown.symm.trans hr)
      exact ⟨o, Heap.read_alloc_fresh st.heap o, ho⟩
  addGone k h := by
    refine ⟨h.1.addGone k, fun hd hr => ?_⟩
    rcases mem_items_add hd with hd | heq
    · exact h.2 hd hr
    · obtain ⟨-, rfl⟩ := Prod.ext_iff.mp heq
      -- a tombstone has no object of its own
      exact absurd hr (by simp [Cache.Delta.own])
  process {st fifo k fifo'} h hpop := by
    refine ⟨h.1.process hpop, fun hd hr => ?_⟩
    obtain ⟨hne, hd⟩ := mem_items_pop hpop hd
    -- what still waits has not been wiped by the batch
    rw [read_own_process (h.1.placed hd).allocated (fun d' hd' =>
      ⟨(h.1.placed hd').allocated, h.1.spares_of_ne (Ne.symm hne) hd' hd⟩) hr]
    exact h.2 hd hr

/-- **The run.** -/
theorem legible_of_run {f : Feed F α} {tr : List (Transition (Feed F α) (WatchLabel α))}
    (hrun : Run (feedSystem F α) .init tr f) (hheard : ∀ t ∈ tr, t.label.All P) :
    Fed f.informer f.fifo ∧ Legible P f.informer f.fifo := by
  induction hrun with
  | nil =>
    refine ⟨fed_init, fun hd => ?_⟩
    rw [Feed.init, items_new] at hd
    exact absurd hd List.not_mem_nil
  | snoc hrun hstep ih =>
    have hlast := hheard _ (List.mem_append_right _ (List.mem_singleton_self _))
    exact legible_maintained.step (ih fun t ht => hheard t (List.mem_append_left _ ht)) hlast hstep

end Waiting

/-! ### Steps -/

section Steps

variable {F α β : Type} [Resource α] [DeltaQueue F String Cache.Delta] [Object β]
  {view : View α β} {f f' : Feed F α} {store : Store β} {l : WatchLabel α}

/-- The struct reads as an API object. -/
def View.Readable (view : View α β) (v : α) : Prop := ∃ o, view.reads v o

theorem Legible.stands {st : Informer α} {fifo : F} (h : Legible view.Readable st fifo) {k : String}
    {d : Cache.Delta} (hd : d ∈ items fifo k) : ∃ δ, view.Stands st.heap d δ := by
  rcases d with ⟨type, r⟩ | (r | ⟨key, obj⟩)
  · obtain ⟨v, hr, o, hv⟩ := h hd rfl
    exact ⟨.set o, .set hr hv⟩
  · obtain ⟨v, hr, o, hv⟩ := h hd rfl
    exact ⟨.deleted o, .deleted hr hv⟩
  · exact ⟨.deletedFinalStateUnknown key, .tombstone⟩

theorem Feed.callbacks_decode (st : Informer α) (list : List α) :
    (Feed.decode st list).1.callbacks = st.callbacks := by
  induction list generalizing st with
  | nil => rfl
  | cons o list ih => exact ih (st.receive o)

/-- **A step of the informer** is a row of changes of the store, with one call of the handler for
each. -/
theorem Feed.step_refines (hstep : (feedSystem F α).step f l f') (hfed : Fed f.informer f.fifo)
    (hlegible : Legible view.Readable f.informer f.fifo) (h : view.Refines f.informer store)
    (typep : String) :
    ∃ (deltas : List (Delta β)) (calls : List (Callback α)),
      view.Refines f'.informer (deltas.foldl Store.process store) ∧
      f'.informer.callbacks = f.informer.callbacks ++ calls ∧
      calls.map (Callback.queueKey typep) = deltas.map (Delta.queueKey typep) := by
  -- nothing is processed where something is heard
  have hheard : f'.informer.values = f.informer.values →
      f'.informer.callbacks = f.informer.callbacks →
      ∃ (deltas : List (Delta β)) (calls : List (Callback α)),
        view.Refines f'.informer (deltas.foldl Store.process store) ∧
        f'.informer.callbacks = f.informer.callbacks ++ calls ∧
        calls.map (Callback.queueKey typep) = deltas.map (Delta.queueKey typep) :=
    fun hvalues hcalls => ⟨[], [], h.congr hvalues, hcalls.trans (List.append_nil _).symm, rfl⟩
  cases l with
  | added o =>
    obtain rfl : f' = f.hear .added o := hstep
    exact hheard (Informer.values_receive hfed.owned o) rfl
  | modified o =>
    obtain rfl : f' = f.hear .updated o := hstep
    exact hheard (Informer.values_receive hfed.owned o) rfl
  | deleted o =>
    obtain rfl : f' = f.hearGone o := hstep
    exact hheard (Informer.values_receive hfed.owned o) rfl
  | replace list known =>
    obtain ⟨-, rfl⟩ := hstep
    exact hheard (values_decode hfed.owned list) (Feed.callbacks_decode f.informer list)
  | pop =>
    obtain ⟨key, fifo, hpop, rfl⟩ := hstep
    exact h.process hfed.owned (fun d hd => ⟨hfed.placed hd, hlegible.stands hd⟩)
      (hfed.spares key) typep

end Steps

end EProxy
