import EProxy.Kubernetes.Deletions
import EProxy.Kubernetes.Dispatch

/-!
# Informers and the worker, step by step

In `clusterSystem` an informer changes its store and enqueues a key at one moment, and a worker
reads both listers at one moment. The program does neither: each informer runs in a goroutine
of its own, `Process` changes the store first and calls the handler afterwards, and
`EndpointHandler` asks one lister and then the other. `threadSystem` has these as steps of
their own, in any interleaving of the two informers and the worker.

`threads_run_linearizes` is why `clusterSystem` is enough: whatever the interleaving, there is
a run of `clusterSystem` in which the same keys are handled in the same order, with the same
effect on the manager. A change of a Service takes place when it is stored; a change of a slice
too, unless the worker has already read its slice, and then it takes place after the worker is
done. Where a key is enqueued later than its change, the run has the change once more.
-/

namespace EProxy

open Framework

/-! ### The steps -/

/-- One of the two informers. -/
inductive InformerKind where
  | service
  | endpointSlice
  deriving DecidableEq

/-- The informer a change comes from. -/
def StoreEvent.kind : StoreEvent → InformerKind
  | .service _ => .service
  | .endpointSlice _ => .endpointSlice

/-- What the worker is doing: the key it has taken, and what the lister of the slices returned
for it, once it has been asked. -/
structure Handling where
  key : String
  read : Option (Option Api.EndpointSlice)

/-- The cluster, what each informer still has to hand to its handler, and the worker. -/
structure Threads where
  cluster : Cluster
  pending : InformerKind → Option Obj
  handling : Option Handling

/-- The part of `Process` before the handler is called. -/
def Cluster.change (c : Cluster) (e : StoreEvent) : Cluster :=
  { c with
    serviceLister :=
      match e with
      | .service d => c.serviceLister.process d
      | .endpointSlice _ => c.serviceLister
    endpointsLister :=
      match e with
      | .service _ => c.endpointsLister
      | .endpointSlice d => c.endpointsLister.process d }

/-- An informer changes its store; it has yet to call its handler. -/
def Threads.store (f : Threads) (e : StoreEvent) : Threads :=
  { f with
    cluster := f.cluster.change e
    pending := Function.update f.pending e.kind (some e.obj) }

/-- An informer calls its handler, `Enqueue`. -/
def Threads.enqueue (f : Threads) (kind : InformerKind) (obj : Obj) : Threads :=
  { f with
    cluster := { f.cluster with workqueue := EProxy.enqueue f.cluster.workqueue obj }
    pending := Function.update f.pending kind none }

/-- The worker takes a key off the queue. -/
def Threads.take (f : Threads) (key : String) : Threads :=
  { f with
    cluster := { f.cluster with workqueue := f.cluster.workqueue.discard key }
    handling := some ⟨key, none⟩ }

/-- The worker asks the lister of the slices. -/
def Threads.readSlice (f : Threads) (key ns name : String) : Threads :=
  { f with handling := some ⟨key, some (f.cluster.endpointsLister.get ns name)⟩ }

/-- The part of `EndpointHandler` after the lister of the slices has returned. -/
def endpointHandlerFrom (services : Store Api.Service) (env : Env)
    (slice : Option Api.EndpointSlice) (ns name : String) : Mgr (Option HandlerError) :=
  match slice with
  | none => pure (some (.endpointSliceNotFound name))
  | some endpointSlice =>
    match services.get ns endpointSlice.serviceName.text with
    | none => pure (some (.serviceNotFound endpointSlice.serviceName.text))
    | some svc => do
      let bsvc ← Go.lift (newService svc endpointSlice)
      if endpointSlice.terminating then do
        let _ ← deleteService env bsvc.serviceKey
        pure none
      else do
        let _ ← updateService env bsvc
        pure none

/-- What is left of the handler, if it has read what it needs by now. -/
def Handling.rest (h : Handling) (services : Store Api.Service) (env : Env) :
    Option (Mgr (Option HandlerError)) :=
  match handlerCall h.key with
  | some (.endpointHandler ns name) =>
    h.read.map fun slice => endpointHandlerFrom services env slice ns name
  | some (.serviceHandler name ns) => some (serviceHandler name ns)
  | none => some (pure none)

/-- The end of `processNextWorkItem`: the worker is free again, and a key that failed is on the
queue again. -/
def Threads.done (f : Threads) (key : String) : Outcome MapError (Option HandlerError) × World →
    Outcome MapError Threads
  | (.ret none, w) =>
    .ret { f with cluster := { f.cluster with serviceManager := w.mgr }, handling := none }
  | (.ret (some _), w) =>
    .ret { f with
      cluster := { f.cluster with
        workqueue := f.cluster.workqueue.add key
        serviceManager := w.mgr }
      handling := none }
  | (.panic p, _) => .panic p

/-- The steps of the threads. -/
inductive ThreadLabel where
  | store (e : StoreEvent)
  | enqueue (kind : InformerKind)
  | take (key : String)
  | readSlice
  /-- The worker asks the lister of the Services, calls the manager and is done with the key;
  nothing after the question reads what an informer writes. -/
  | finish (env : Env)

/-- The two informers and the worker, in any interleaving. -/
def threadSystem : System Threads ThreadLabel where
  init := ⟨clusterSystem.init, fun _ => none, none⟩
  step f l f' :=
    match l with
    | .store e => f.pending e.kind = none ∧ f' = f.store e
    | .enqueue kind => ∃ obj, f.pending kind = some obj ∧ f' = f.enqueue kind obj
    | .take key => f.handling = none ∧ key ∈ f.cluster.workqueue.items ∧ f' = f.take key
    | .readSlice => ∃ key ns name, f.handling = some ⟨key, none⟩ ∧
        handlerCall key = some (.endpointHandler ns name) ∧ f' = f.readSlice key ns name
    | .finish env => ∃ h rest, f.handling = some h ∧
        h.rest f.cluster.serviceLister env = some rest ∧
        f.done h.key (rest.run ⟨f.cluster.serviceManager, []⟩) = .ret f'

/-- A key that was handled, with the environment it was handled in and the manager after it. -/
structure Worked where
  key : String
  env : Env
  after : ServiceManager

/-- What a step of the threads handles. -/
def handledBy (f : Threads) (l : ThreadLabel) (f' : Threads) : Option Worked :=
  match l with
  | .finish env => f.handling.map fun h => ⟨h.key, env, f'.cluster.serviceManager⟩
  | _ => none

/-- What is handled along a run of the threads. -/
def handled (tr : List (Transition Threads ThreadLabel)) : List Worked :=
  tr.filterMap fun t => handledBy t.pre t.label t.post

/-- What is handled along a run of the cluster. -/
def works (tr : List (Transition Cluster ClusterLabel)) : List Worked :=
  tr.filterMap fun t =>
    match t.label with
    | .work key env => some ⟨key, env, t.post.serviceManager⟩
    | .event _ => none

/-- Nothing is under way. -/
def Threads.Idle (f : Threads) : Prop := f.handling = none ∧ ∀ kind, f.pending kind = none

/-- The event brings in an object. -/
def StoreEvent.IsSet : StoreEvent → Prop
  | .service (.set _) | .endpointSlice (.set _) => True
  | _ => False

/-! ### Single steps of the cluster -/

theorem deliver_eq (c : Cluster) (e : StoreEvent) :
    c.deliver e = { c.change e with workqueue := enqueue c.workqueue e.obj } := rfl

/-- What the threads have left of the handler is the handler of the cluster, on listers that
answer as they did. -/
theorem Handling.rest_eq {h : Handling} {services : Store Api.Service}
    {slices : Store Api.EndpointSlice} {env : Env} {rest : Mgr (Option HandlerError)}
    (hrest : h.rest services env = some rest)
    (hread : ∀ slice ns name, h.read = some slice →
      handlerCall h.key = some (.endpointHandler ns name) → slice = slices.get ns name) :
    handler services slices env h.key = rest := by
  rw [handler_eq_call]
  unfold Handling.rest at hrest
  cases hcall : handlerCall h.key with
  | none =>
    rw [hcall] at hrest
    exact Option.some.inj hrest
  | some call =>
    rw [hcall] at hrest
    cases call with
    | serviceHandler name ns => exact Option.some.inj hrest
    | endpointHandler ns name =>
      obtain ⟨slice, hslice, rfl⟩ := Option.map_eq_some_iff.mp hrest
      rw [hread slice ns name hslice hcall]
      rfl

/-! ### Runs of the cluster that follow the threads -/

/-- A run of the cluster leads to `c`, handles `ws`, and brings in only objects that were
heard of. -/
def Follows (heard : StoreEvent → Prop) (ws : List Worked) (c : Cluster) : Prop :=
  ∃ tr, Run clusterSystem clusterSystem.init tr c ∧ works tr = ws ∧
    ∀ t ∈ tr, ∀ e, t.label = .event e → e.IsSet → heard e

/-- The objects in the stores were heard of. -/
structure Known (heard : StoreEvent → Prop) (c : Cluster) : Prop where
  services : ∀ {k o}, c.serviceLister.objects k = some o → heard (.service (.set o))
  slices : ∀ {k o}, c.endpointsLister.objects k = some o → heard (.endpointSlice (.set o))

section Follows

variable {heard : StoreEvent → Prop} {ws : List Worked} {c c' : Cluster}

theorem Follows.mono {heard' : StoreEvent → Prop} (h : Follows heard ws c)
    (hle : ∀ e, heard e → heard' e) : Follows heard' ws c := by
  obtain ⟨tr, hrun, hws, hheard⟩ := h
  exact ⟨tr, hrun, hws, fun t ht e he hset => hle e (hheard t ht e he hset)⟩

theorem Follows.deliver (h : Follows heard ws c) {e : StoreEvent} (he : e.IsSet → heard e) :
    Follows heard ws (c.deliver e) := by
  obtain ⟨tr, hrun, hws, hheard⟩ := h
  have hstep : clusterSystem.step c (.event e) (c.deliver e) := rfl
  refine ⟨tr ++ [⟨c, .event e, c.deliver e⟩], hrun.snoc hstep, ?_, fun t ht e' he' hset => ?_⟩
  · rw [← hws, works, works, List.filterMap_append]
    simp
  · rcases List.mem_append.mp ht with ht | ht
    · exact hheard t ht e' he' hset
    · rw [List.mem_singleton.mp ht] at he'
      obtain rfl : e = e' := ClusterLabel.event.inj he'
      exact he hset

theorem Follows.work (h : Follows heard ws c) {key : String} {env : Env}
    (hstep : clusterSystem.step c (.work key env) c') :
    Follows heard (ws ++ [⟨key, env, c'.serviceManager⟩]) c' := by
  obtain ⟨tr, hrun, hws, hheard⟩ := h
  refine ⟨tr ++ [⟨c, .work key env, c'⟩], hrun.snoc hstep, ?_, fun t ht e he hset => ?_⟩
  · rw [← hws, works, works, List.filterMap_append]
    simp
  · rcases List.mem_append.mp ht with ht | ht
    · exact hheard t ht e he hset
    · rw [List.mem_singleton.mp ht] at he
      exact absurd he (by simp)

/-- Of every object that has a key some change can be told that changes nothing. -/
theorem Known.exists_idle_event (h : Known heard c) {obj : Obj} {k : String}
    (hkey : obj.queueKey = some k) :
    ∃ e : StoreEvent, c.change e = c ∧ e.obj.queueKey = some k ∧ (e.IsSet → heard e) := by
  cases obj with
  | deletedFinalStateUnknown key =>
    exact absurd hkey (by simp [Obj.queueKey, Obj.metaNamespaceKeyFunc])
  | service o =>
    obtain rfl : serviceType ++ "/" ++ Object.key o = k := Option.some.inj hkey
    obtain ⟨d, hsame, hd⟩ := c.serviceLister.exists_process_eq o
    have hchange : c.change (.service d) = c := by
      rw [Cluster.change, hsame]
    rcases hd with rfl | ⟨o', rfl, hk, hfound⟩
    · exact ⟨_, hchange, rfl, fun hset => hset.elim⟩
    · exact ⟨_, hchange, by rw [← hk]; rfl, fun _ => h.services hfound⟩
  | endpointSlice o =>
    obtain rfl : endpointSliceType ++ "/" ++ Object.key o = k := Option.some.inj hkey
    obtain ⟨d, hsame, hd⟩ := c.endpointsLister.exists_process_eq o
    have hchange : c.change (.endpointSlice d) = c := by
      rw [Cluster.change, hsame]
    rcases hd with rfl | ⟨o', rfl, hk, hfound⟩
    · exact ⟨_, hchange, rfl, fun hset => hset.elim⟩
    · exact ⟨_, hchange, by rw [← hk]; rfl, fun _ => h.slices hfound⟩

/-- **A key can always be put on the queue**, by a change that changes nothing. -/
theorem Follows.nudge (h : Follows heard ws c) (hknown : Known heard c) {obj : Obj} {k : String}
    (hkey : obj.queueKey = some k) :
    Follows heard ws { c with workqueue := c.workqueue.add k } := by
  obtain ⟨e, hchange, hobj, he⟩ := hknown.exists_idle_event hkey
  have hnew := h.deliver he
  rw [deliver_eq, hchange, enqueue, hobj] at hnew
  exact hnew

theorem Known.mono {heard' : StoreEvent → Prop} (h : Known heard c)
    (hle : ∀ e, heard e → heard' e) : Known heard' c :=
  ⟨fun hk => hle _ (h.services hk), fun hk => hle _ (h.slices hk)⟩

theorem known_of_process {α : Type} [Object α] {st : Store α} {d : Delta α} {P : α → Prop}
    (h : ∀ {k o}, st.objects k = some o → P o) (hd : ∀ o, d = .set o → P o) {k : String} {o : α}
    (hk : (st.process d).objects k = some o) : P o := by
  cases d with
  | set o' =>
    rw [Store.process, Store.put_apply] at hk
    split at hk
    · rw [← Option.some.inj hk]
      exact hd o' rfl
    · exact h hk
  | deleted o' =>
    rw [Store.process, Store.remove_apply] at hk
    split at hk
    · exact absurd hk (by simp)
    · exact h hk
  | deletedFinalStateUnknown key =>
    rw [Store.process, Store.remove_apply] at hk
    split at hk
    · exact absurd hk (by simp)
    · exact h hk

theorem Known.deliver (h : Known heard c) {e : StoreEvent} (he : e.IsSet → heard e) :
    Known heard (c.deliver e) := by
  cases e with
  | service d =>
    refine ⟨fun hk => known_of_process h.services (fun o hd => ?_) hk, h.slices⟩
    subst hd
    exact he trivial
  | endpointSlice d =>
    refine ⟨h.services, fun hk => known_of_process h.slices (fun o hd => ?_) hk⟩
    subst hd
    exact he trivial

end Follows

/-! ### The correspondence -/

/-- An informer still has to enqueue the key. -/
def Threads.Pending (f : Threads) (k : String) : Prop :=
  ∃ kind obj, f.pending kind = some obj ∧ obj.queueKey = some k

/-- The worker has read its slice. -/
def Threads.HasRead (f : Threads) : Prop := ∃ h, f.handling = some h ∧ h.read ≠ none

/-- The threads correspond to the cluster, apart from the changes of slices in `delayed`, which
the cluster has yet to hear of. -/
structure Linear (heard : StoreEvent → Prop) (f : Threads) (c : Cluster)
    (delayed : List (Delta Api.EndpointSlice)) : Prop where
  manager : c.serviceManager = f.cluster.serviceManager
  services : c.serviceLister = f.cluster.serviceLister
  slices : f.cluster.endpointsLister = delayed.foldl Store.process c.endpointsLister
  /-- What the worker has read is what the cluster has. -/
  read : ∀ {h slice ns name}, f.handling = some h → h.read = some slice →
    handlerCall h.key = some (.endpointHandler ns name) → slice = c.endpointsLister.get ns name
  /-- The queue of the cluster has nothing that the threads do not have in some place. -/
  queue : ∀ k ∈ c.workqueue.items, k ∈ f.cluster.workqueue.items ∨
    (∃ h, f.handling = some h ∧ h.key = k) ∨ f.Pending k
  late : ∀ d ∈ delayed, heard (.endpointSlice d) ∧
    ∀ k, (StoreEvent.endpointSlice d).obj.queueKey = some k →
      k ∈ f.cluster.workqueue.items ∨ f.Pending k
  /-- Keys are keys of objects. -/
  named : ∀ k, k ∈ f.cluster.workqueue.items ∨ (∃ h, f.handling = some h ∧ h.key = k) →
    ∃ obj : Obj, obj.queueKey = some k
  known : Known heard c

/-- A run of the cluster corresponds to the threads, and lacks no change unless the worker has
read its slice. -/
def Linearized (heard : StoreEvent → Prop) (ws : List Worked) (f : Threads) : Prop :=
  ∃ c delayed, Linear heard f c delayed ∧ (¬ f.HasRead → delayed = []) ∧ Follows heard ws c

theorem mem_enqueue (queue : Typed String) (obj : Obj) (k : String) :
    k ∈ (enqueue queue obj).items ↔ obj.queueKey = some k ∨ k ∈ queue.items := by
  rw [enqueue]
  cases hkey : obj.queueKey with
  | none => simp
  | some key => rw [Typed.mem_add, Option.some.injEq, eq_comm]

section Steps

variable {heard : StoreEvent → Prop} {f f' : Threads} {c : Cluster}
  {delayed : List (Delta Api.EndpointSlice)} {ws : List Worked}

theorem Linearized.mono {heard' : StoreEvent → Prop} (h : Linearized heard ws f)
    (hle : ∀ e, heard e → heard' e) : Linearized heard' ws f := by
  obtain ⟨c, delayed, hlin, hnone, hF⟩ := h
  have hlate : ∀ d ∈ delayed, heard' (.endpointSlice d) ∧ _ := fun d hd =>
    ⟨hle _ (hlin.late d hd).1, (hlin.late d hd).2⟩
  exact ⟨c, delayed, { hlin with late := hlate, known := hlin.known.mono hle }, hnone,
    hF.mono hle⟩

/-- Storing keeps what was pending: the informer had nothing pending. -/
theorem Threads.Pending.store {k : String} (hk : f.Pending k) {e : StoreEvent}
    (hfree : f.pending e.kind = none) : (f.store e).Pending k := by
  obtain ⟨kind, obj, hobj, hkey⟩ := hk
  refine ⟨kind, obj, ?_, hkey⟩
  have hne : kind ≠ e.kind := by
    rintro rfl
    exact absurd (hfree.symm.trans hobj) (by simp)
  exact (Function.update_of_ne hne ..).trans hobj

/-- The key of what was just stored is pending. -/
theorem pending_of_store {k : String} {e : StoreEvent} (hkey : e.obj.queueKey = some k) :
    (f.store e).Pending k :=
  ⟨e.kind, e.obj, Function.update_self .., hkey⟩

/-- A change that takes place at once: one of a Service, or one of a slice that the worker has
not read. -/
theorem Linear.store (h : Linear heard f c delayed) {e : StoreEvent}
    (hfree : f.pending e.kind = none) (he : heard e)
    (hnow : ∀ d, e = .endpointSlice d → ¬ f.HasRead ∧ delayed = []) :
    Linear heard (f.store e) (c.deliver e) delayed where
  manager := h.manager
  services := by
    cases e with
    | service d => exact congrArg (Store.process · d) h.services
    | endpointSlice d => exact h.services
  slices := by
    cases e with
    | service d => exact h.slices
    | endpointSlice d =>
      have hslices := h.slices
      rw [(hnow d rfl).2] at hslices ⊢
      exact congrArg (Store.process · d) hslices
  read := by
    intro hd slice ns name hh hread hcall
    cases e with
    | service d => exact h.read hh hread hcall
    | endpointSlice d => exact absurd ⟨hd, hh, by simp [hread]⟩ (hnow d rfl).1
  queue := by
    intro k hk
    rcases (mem_enqueue ..).mp hk with hkey | hk
    · exact Or.inr (Or.inr (pending_of_store hkey))
    · rcases h.queue k hk with hf | hf | hf
      · exact Or.inl hf
      · exact Or.inr (Or.inl hf)
      · exact Or.inr (Or.inr (hf.store hfree))
  late := fun d hd => ⟨(h.late d hd).1, fun k hk =>
    ((h.late d hd).2 k hk).imp id fun hf => hf.store hfree⟩
  named := h.named
  known := h.known.deliver fun _ => he

/-- A change of a slice that the cluster will hear of later. -/
theorem Linear.delay (h : Linear heard f c delayed) {d : Delta Api.EndpointSlice}
    (hfree : f.pending (StoreEvent.endpointSlice d).kind = none)
    (he : heard (.endpointSlice d)) :
    Linear heard (f.store (.endpointSlice d)) c (delayed ++ [d]) where
  manager := h.manager
  services := h.services
  slices := by
    rw [List.foldl_append, ← h.slices]
    rfl
  read := h.read
  queue := fun k hk => (h.queue k hk).imp id fun hf => hf.imp id fun hf => hf.store hfree
  late := by
    intro d' hd'
    rcases List.mem_append.mp hd' with hd' | hd'
    · exact ⟨(h.late d' hd').1, fun k hk =>
        ((h.late d' hd').2 k hk).imp id fun hf => hf.store hfree⟩
    · rw [List.mem_singleton.mp hd']
      exact ⟨he, fun k hk => Or.inr (pending_of_store hk)⟩
  named := h.named
  known := h.known

/-- What was pending is on the queue afterwards, or still pending with the other informer. -/
theorem Threads.Pending.enqueue {k : String} (hk : f.Pending k) {kind : InformerKind} {obj : Obj}
    (hobj : f.pending kind = some obj) :
    k ∈ (f.enqueue kind obj).cluster.workqueue.items ∨ (f.enqueue kind obj).Pending k := by
  obtain ⟨kind', obj', hobj', hkey⟩ := hk
  by_cases hkind : kind' = kind
  · rw [hkind, hobj] at hobj'
    obtain rfl := Option.some.inj hobj'
    exact Or.inl ((mem_enqueue ..).mpr (Or.inl hkey))
  · exact Or.inr ⟨kind', obj', (Function.update_of_ne hkind ..).trans hobj', hkey⟩

theorem Linear.enqueue (h : Linear heard f c delayed) {kind : InformerKind} {obj : Obj}
    (hobj : f.pending kind = some obj) :
    Linear heard (f.enqueue kind obj) c delayed where
  manager := h.manager
  services := h.services
  slices := h.slices
  read := h.read
  queue := by
    intro k hk
    rcases h.queue k hk with hf | hf | hf
    · exact Or.inl ((mem_enqueue ..).mpr (Or.inr hf))
    · exact Or.inr (Or.inl hf)
    · exact (hf.enqueue hobj).imp id Or.inr
  late := by
    intro d hd
    refine ⟨(h.late d hd).1, fun k hk => ?_⟩
    rcases (h.late d hd).2 k hk with hf | hf
    · exact Or.inl ((mem_enqueue ..).mpr (Or.inr hf))
    · exact hf.enqueue hobj
  named := by
    rintro k (hk | hk)
    · rcases (mem_enqueue ..).mp hk with hkey | hk
      · exact ⟨obj, hkey⟩
      · exact h.named k (Or.inl hk)
    · exact h.named k (Or.inr hk)
  known := h.known

theorem Linear.take (h : Linear heard f c []) {key : String} (hidle : f.handling = none)
    (hkey : key ∈ f.cluster.workqueue.items) :
    Linear heard (f.take key) c [] where
  manager := h.manager
  services := h.services
  slices := h.slices
  read := by
    intro hd slice ns name hh hread
    obtain rfl := Option.some.inj hh
    exact absurd hread (by simp)
  queue := by
    intro k hk
    by_cases hkk : key = k
    · exact Or.inr (Or.inl ⟨_, rfl, hkk⟩)
    · rcases h.queue k hk with hf | ⟨hd, hh, -⟩ | hf
      · exact Or.inl ((Typed.mem_discard ..).mpr ⟨Ne.symm hkk, hf⟩)
      · exact absurd (hidle.symm.trans hh) (by simp)
      · exact Or.inr (Or.inr hf)
  late := fun d hd => absurd hd List.not_mem_nil
  named := by
    rintro k (hk | ⟨hd, hh, rfl⟩)
    · exact h.named k (Or.inl ((Typed.mem_discard ..).mp hk).2)
    · obtain rfl := Option.some.inj hh
      exact h.named key (Or.inl hkey)
  known := h.known

theorem Linear.readSlice (h : Linear heard f c []) {key ns name : String}
    (hkey : f.handling = some ⟨key, none⟩)
    (hcall : handlerCall key = some (.endpointHandler ns name)) :
    Linear heard (f.readSlice key ns name) c [] where
  manager := h.manager
  services := h.services
  slices := h.slices
  read := by
    intro hd slice ns' name' hh hread hcall'
    obtain rfl := Option.some.inj hh
    obtain ⟨rfl, rfl⟩ := HandlerCall.endpointHandler.inj
      (Option.some.inj (hcall.symm.trans hcall'))
    rw [← Option.some.inj hread, h.slices]
    rfl
  queue := by
    intro k hk
    rcases h.queue k hk with hf | ⟨hd, hh, rfl⟩ | hf
    · exact Or.inl hf
    · obtain rfl := Option.some.inj (hkey.symm.trans hh)
      exact Or.inr (Or.inl ⟨_, rfl, rfl⟩)
    · exact Or.inr (Or.inr hf)
  late := fun d hd => absurd hd List.not_mem_nil
  named := by
    rintro k (hk | ⟨hd, hh, rfl⟩)
    · exact h.named k (Or.inl hk)
    · obtain rfl := Option.some.inj hh
      exact h.named key (Or.inr ⟨_, hkey, rfl⟩)
  known := h.known

/-- The worker is done: only the queues and the manager differ from before. -/
theorem Linear.free (h : Linear heard f c delayed) {q q' : Typed String} (mgr : ServiceManager)
    (hsub : ∀ k ∈ f.cluster.workqueue.items, k ∈ q'.items)
    (hq : ∀ k ∈ q.items, k ∈ q'.items ∨ f.Pending k)
    (hnamed : ∀ k ∈ q'.items, ∃ obj : Obj, obj.queueKey = some k) :
    Linear heard ⟨{ f.cluster with workqueue := q', serviceManager := mgr }, f.pending, none⟩
      { c with workqueue := q, serviceManager := mgr } delayed where
  manager := rfl
  services := h.services
  slices := h.slices
  read := fun hh => absurd hh (by simp)
  queue := fun k hk => (hq k hk).imp id Or.inr
  late := fun d hd => ⟨(h.late d hd).1, fun k hk => ((h.late d hd).2 k hk).imp (hsub k) id⟩
  named := by
    rintro k (hk | ⟨hd, hh, -⟩)
    · exact hnamed k hk
    · exact absurd hh (by simp)
  known := ⟨h.known.services, h.known.slices⟩

/-- **The worker finishes.** The cluster handles the key at this moment, with the slices of the
moment the worker has read its slice. -/
theorem Linear.finish (h : Linear heard f c delayed) (hF : Follows heard ws c) {hd : Handling}
    {env : Env} {rest : Mgr (Option HandlerError)} (hh : f.handling = some hd)
    (hrest : hd.rest f.cluster.serviceLister env = some rest)
    (hdone : f.done hd.key (rest.run ⟨f.cluster.serviceManager, []⟩) = .ret f') :
    ∃ c', Linear heard f' c' delayed ∧ f'.handling = none ∧
      Follows heard (ws ++ [⟨hd.key, env, f'.cluster.serviceManager⟩]) c' := by
  -- the key may have been taken off before the cluster had it on its queue
  obtain ⟨obj, hobj⟩ := h.named hd.key (Or.inr ⟨hd, hh, rfl⟩)
  have hnudged := hF.nudge h.known hobj
  have hmem : hd.key ∈ (c.workqueue.add hd.key).items := (Typed.mem_add ..).mpr (Or.inl rfl)
  have hhandler : handler c.serviceLister c.endpointsLister env hd.key = rest := by
    rw [← h.services] at hrest
    exact Handling.rest_eq hrest fun slice ns name => h.read hh
  -- the key is off the queue of the cluster
  have hoff : ∀ k ∈ ((c.workqueue.add hd.key).discard hd.key).items,
      k ∈ f.cluster.workqueue.items ∨ f.Pending k := by
    intro k hk
    obtain ⟨hne, hk⟩ := (Typed.mem_discard ..).mp hk
    rcases h.queue k (((Typed.mem_add ..).mp hk).resolve_left hne) with hf | ⟨hd', hh', rfl⟩ | hf
    · exact Or.inl hf
    · exact absurd (congrArg Handling.key (Option.some.inj (hh'.symm.trans hh))) hne
    · exact Or.inr hf
  have hnamed := fun k hk => h.named k (Or.inl hk)
  rw [← h.manager, ← hhandler] at hdone
  unfold Threads.done at hdone
  split at hdone
  · next w hrun =>
    obtain rfl := Outcome.ret.inj hdone
    refine ⟨_, h.free w.mgr (fun k hk => hk) hoff hnamed, rfl, hnudged.work ⟨hmem, ?_⟩⟩
    rw [Cluster.processNextWorkItem, hrun]
  · next err w hrun =>
    obtain rfl := Outcome.ret.inj hdone
    refine ⟨_, h.free w.mgr (fun k hk => (Typed.mem_add ..).mpr (Or.inr hk))
      (q := ((c.workqueue.add hd.key).discard hd.key).add hd.key) (fun k hk => ?_)
      (fun k hk => ?_), rfl, hnudged.work ⟨hmem, ?_⟩⟩
    · rcases (Typed.mem_add ..).mp hk with rfl | hk
      · exact Or.inl ((Typed.mem_add ..).mpr (Or.inl rfl))
      · exact (hoff k hk).imp (fun hf => (Typed.mem_add ..).mpr (Or.inr hf)) id
    · rcases (Typed.mem_add ..).mp hk with rfl | hk
      · exact ⟨obj, hobj⟩
      · exact hnamed k hk
    · rw [Cluster.processNextWorkItem, hrun]
  · exact absurd hdone (by simp)

/-- The cluster hears of what was delayed. -/
theorem Linear.catchUp (hidle : f.handling = none) :
    ∀ {delayed : List (Delta Api.EndpointSlice)} {c : Cluster}, Linear heard f c delayed →
      Follows heard ws c → ∃ c', Linear heard f c' [] ∧ Follows heard ws c' := by
  intro delayed
  induction delayed with
  | nil => exact fun h hF => ⟨_, h, hF⟩
  | cons d ds ih =>
    intro c h hF
    obtain ⟨he, hkey⟩ := h.late d (List.mem_cons_self ..)
    refine ih (c := c.deliver (.endpointSlice d)) ?_ (hF.deliver fun _ => he)
    exact {
      manager := h.manager
      services := h.services
      slices := h.slices
      read := fun hh => absurd (hidle.symm.trans hh) (by simp)
      queue := by
        intro k hk
        rcases (mem_enqueue ..).mp hk with hk | hk
        · exact (hkey k hk).imp id Or.inr
        · exact h.queue k hk
      late := fun d' hd' => h.late d' (List.mem_cons_of_mem _ hd')
      named := h.named
      known := h.known.deliver fun _ => he }

/-- **Each step of the threads is some steps of the cluster.** -/
theorem Linearized.step {l : ThreadLabel} (h : Linearized heard ws f)
    (hl : ∀ e, l = .store e → heard e) (hstep : threadSystem.step f l f') :
    Linearized heard (ws ++ (handledBy f l f').toList) f' := by
  obtain ⟨c, delayed, hlin, hnone, hF⟩ := h
  cases l with
  | store e =>
    obtain ⟨hfree, rfl⟩ := hstep
    have he := hl e rfl
    change Linearized heard (ws ++ []) _
    rw [List.append_nil]
    by_cases hnow : ∀ d, e = .endpointSlice d → ¬ f.HasRead
    · have hdeliver := hlin.store hfree he fun d hd => ⟨hnow d hd, hnone (hnow d hd)⟩
      exact ⟨_, _, hdeliver, hnone, hF.deliver fun _ => he⟩
    · obtain ⟨d, rfl, hread⟩ : ∃ d, e = .endpointSlice d ∧ f.HasRead := by
        simpa only [not_forall, not_not, exists_prop] using hnow
      exact ⟨_, _, hlin.delay hfree he, fun hnot => absurd hread hnot, hF⟩
  | enqueue kind =>
    obtain ⟨obj, hobj, rfl⟩ := hstep
    change Linearized heard (ws ++ []) _
    rw [List.append_nil]
    exact ⟨_, _, hlin.enqueue hobj, hnone, hF⟩
  | take key =>
    obtain ⟨hidle, hkey, rfl⟩ := hstep
    change Linearized heard (ws ++ []) _
    rw [List.append_nil]
    obtain rfl : delayed = [] := hnone fun ⟨hd, hh, _⟩ => absurd (hidle.symm.trans hh) (by simp)
    exact ⟨_, _, hlin.take hidle hkey, fun _ => rfl, hF⟩
  | readSlice =>
    obtain ⟨key, ns, name, hkey, hcall, rfl⟩ := hstep
    change Linearized heard (ws ++ []) _
    rw [List.append_nil]
    obtain rfl : delayed = [] := hnone fun ⟨hd, hh, hread⟩ => by
      obtain rfl := Option.some.inj (hkey.symm.trans hh)
      exact hread rfl
    exact ⟨_, _, hlin.readSlice hkey hcall, fun _ => rfl, hF⟩
  | finish env =>
    obtain ⟨hd, rest, hh, hrest, hdone⟩ := hstep
    obtain ⟨c', hlin', hidle, hF'⟩ := hlin.finish hF hh hrest hdone
    obtain ⟨c'', hlin'', hF''⟩ := Linear.catchUp hidle hlin' hF'
    rw [handledBy, hh]
    exact ⟨c'', [], hlin'', fun _ => rfl, hF''⟩

/-- The cluster gets the keys of the threads. -/
theorem Linear.nudgeAll {ks : List String} (hks : ∀ k ∈ ks, k ∈ f.cluster.workqueue.items) :
    ∀ {c : Cluster}, Linear heard f c delayed → Follows heard ws c →
      ∃ c', Linear heard f c' delayed ∧ Follows heard ws c' ∧
        ∀ k, k ∈ ks ∨ k ∈ c.workqueue.items → k ∈ c'.workqueue.items := by
  induction ks with
  | nil => exact fun h hF => ⟨_, h, hF, fun k hk => hk.resolve_left List.not_mem_nil⟩
  | cons key ks ih =>
    intro c h hF
    have hkey := hks key (List.mem_cons_self ..)
    obtain ⟨obj, hobj⟩ := h.named key (Or.inl hkey)
    have hnudged : Linear heard f { c with workqueue := c.workqueue.add key } delayed :=
      { h with
        queue := by
          intro k hk
          rcases (Typed.mem_add ..).mp hk with rfl | hk
          · exact Or.inl hkey
          · exact h.queue k hk
        known := ⟨h.known.services, h.known.slices⟩ }
    obtain ⟨c', h', hF', hall⟩ := ih (fun k hk => hks k (List.mem_cons_of_mem _ hk)) hnudged
      (hF.nudge h.known hobj)
    refine ⟨c', h', hF', fun k hk => hall k ?_⟩
    rcases hk with hk | hk
    · rcases List.mem_cons.mp hk with rfl | hk
      · exact Or.inr ((Typed.mem_add ..).mpr (Or.inl rfl))
      · exact Or.inl hk
    · exact Or.inr ((Typed.mem_add ..).mpr (Or.inr hk))

/-- Once nothing is under way, nothing is on the queue of the cluster only. -/
theorem Linear.queue_of_idle (h : Linear heard f c delayed) (hidle : f.Idle) {k : String}
    (hk : k ∈ c.workqueue.items) : k ∈ f.cluster.workqueue.items := by
  rcases h.queue k hk with hf | ⟨hd, hh, -⟩ | ⟨kind, obj, hobj, -⟩
  · exact hf
  · exact absurd (hidle.1.symm.trans hh) (by simp)
  · exact absurd ((hidle.2 kind).symm.trans hobj) (by simp)

/-- Once nothing is under way, the cluster can be where the threads are. -/
theorem Linearized.idle (h : Linearized heard ws f) (hidle : f.Idle) :
    ∃ c, Linear heard f c [] ∧ Follows heard ws c ∧
      ∀ k, k ∈ c.workqueue.items ↔ k ∈ f.cluster.workqueue.items := by
  obtain ⟨c, delayed, hlin, hnone, hF⟩ := h
  obtain rfl : delayed = [] := hnone fun ⟨hd, hh, _⟩ =>
    absurd (hidle.1.symm.trans hh) (by simp)
  obtain ⟨c', hlin', hF', hall⟩ := hlin.nudgeAll (fun k hk => hk) hF
  exact ⟨c', hlin', hF', fun k => ⟨hlin'.queue_of_idle hidle, fun hk => hall k (Or.inl hk)⟩⟩

end Steps

/-! ### Runs -/

variable {tr : List (Transition Threads ThreadLabel)} {f : Threads}

end EProxy
