import EProxy.Kubernetes.Feed

/-!
# Following the API server

What the lists and watch events of a run have said last is `server`. Two results say how far the
indexer of an informer follows it, whatever the interleaving of what is heard and of `Process`.

* `indexer_follows_server`: when nothing waits, the indexer has under a key what the server has,
  cut down by the conversion, but for the keys in `missed`. A list brings deletions for the keys
  of the indexer that it lacks, and not for keys that wait on the queue and are not in the
  indexer yet; so if an object is added and deleted again while its addition still waits, and
  the deletion is only noticed by a list, the addition is carried out and never taken back. The
  invariant is `Tracking`.
* `stored_of_hasSynced`: once `HasSynced` answers `true`, the indexer has every object that has
  been in all lists and has not been deleted. The invariant is `Arriving`.
-/

namespace EProxy

open Framework DeltaQueue

/-! ### What the server has -/

section Server

variable {F α : Type} [Resource α] [DeltaQueue F String Cache.Delta]

/-- What the reflector has been told, after one label more. -/
def WatchLabel.tell (told : Table String α) : WatchLabel α → Table String α
  | .added o | .modified o => told.set (Resource.key o) o
  | .deleted o => told.erase (Resource.key o)
  | .replace list _ => Table.empty.assignAll (list.map fun o => (Resource.key o, some o))
  | .pop => told

/-- What the reflector has been told in the course of a run. -/
def server (tr : List (Transition (Feed F α) (WatchLabel α))) : Table String α :=
  tr.foldl (fun told t => t.label.tell told) .empty

/-- The keys that a list has missed and that have not been heard of since. -/
def missedAfter (missed : String → Prop) (t : Transition (Feed F α) (WatchLabel α)) :
    String → Prop :=
  match t.label with
  | .added o | .modified o | .deleted o => fun k => missed k ∧ k ≠ Resource.key o
  | .replace list _ => fun k =>
    k ∉ list.map Resource.key ∧ t.pre.informer.items k = none ∧
      (settled t.pre.informer t.pre.fifo k).isSome
  | .pop => missed

/-- The keys of the objects that are on their way to the indexer and not on the server. -/
def missed (tr : List (Transition (Feed F α) (WatchLabel α))) : String → Prop :=
  tr.foldl missedAfter fun _ => False

end Server

/-! ### The indexer follows the server -/

section Following

variable {F α : Type} [Resource α] [DeltaQueue F String Cache.Delta] {f f' : Feed F α}
  {told : Table String α} {lost : String → Prop}
  {tr : List (Transition (Feed F α) (WatchLabel α))} {k : String}

/-- The indexer is on its way to what the server has, but for the keys that were missed: these
are on their way to the indexer and not on the server. -/
structure Tracking (f : Feed F α) (told : Table String α) (lost : String → Prop) : Prop where
  astray : ∀ {k}, lost k → told k = none ∧ (settled f.informer f.fifo k).isSome
  others : ∀ {k}, ¬ lost k → settled f.informer f.fifo k = (told k).map Resource.custom

/-- A key that is heard of is not missed any more. -/
theorem Tracking.assign (h : Tracking f told lost) {v : Option α}
    (hset : settled f'.informer f'.fifo =
      (settled f.informer f.fifo).assign k (v.map Resource.custom)) :
    Tracking f' (told.assign k v) fun k' => lost k' ∧ k' ≠ k where
  astray {k'} hk' := by
    rw [hset, Table.assign_of_ne _ _ hk'.2, Table.assign_of_ne _ _ hk'.2]
    exact h.astray hk'.1
  others {k'} hk' := by
    by_cases hk : k' = k
    -- lost or not, the key has been heard of now
    · rw [hset, hk, Table.assign_self, Table.assign_self]
    · rw [hset, Table.assign_of_ne _ _ hk, Table.assign_of_ne _ _ hk]
      exact h.others fun hlost => hk' ⟨hlost, hk⟩

theorem Tracking.relist (hfed : Fed f.informer f.fifo) {list : List α} {known : List String}
    (hknown : f.Lists known) :
    Tracking (f.relist list known)
      (Table.empty.assignAll (list.map fun o => (Resource.key o, some o)))
      fun k => k ∉ list.map Resource.key ∧ f.informer.items k = none ∧
        (settled f.informer f.fifo k).isSome := by
  have habsent : ∀ {k}, k ∉ list.map Resource.key →
      (Table.empty : Table String α).assignAll (list.map fun o => (Resource.key o, some o)) k =
        none := by
    intro k hk
    refine Table.assignAll_of_notMem ?_
    rw [List.map_map]
    exact hk
  constructor
  · rintro k ⟨hk, hstored, hsome⟩
    -- there is no tombstone for what is not stored yet, so its addition stays settled
    rw [settled_relist hfed hknown, if_neg hk, hstored]
    exact ⟨habsent hk, hsome⟩
  · intro k hnot
    rw [settled_relist hfed hknown]
    split
    · have hmap := Table.map_assignAll Resource.custom (Table.empty : Table String α)
        (list.map fun o => (Resource.key o, some o))
      rw [List.map_map] at hmap
      exact (congrFun hmap k).symm
    · next hk =>
      rw [habsent hk]
      split
      · rfl
      · next hstored =>
        -- neither listed nor known nor missed: nothing is on its way
        rw [Option.not_isSome_iff_eq_none] at hstored
        by_contra hne
        exact hnot ⟨hk, hstored, Option.isSome_iff_ne_none.mpr hne⟩

/-- **The step.** -/
theorem Tracking.step {l : WatchLabel α} (h : Tracking f told lost)
    (hfed : Fed f.informer f.fifo) (hstep : (feedSystem F α).step f l f') :
    Tracking f' (l.tell told) (missedAfter lost ⟨f, l, f'⟩) := by
  cases l with
  | added o =>
    obtain rfl : f' = f.hear .added o := hstep
    exact h.assign (settled_hear hfed .added o)
  | modified o =>
    obtain rfl : f' = f.hear .updated o := hstep
    exact h.assign (settled_hear hfed .updated o)
  | deleted o =>
    obtain rfl : f' = f.hearGone o := hstep
    exact h.assign (settled_hearGone hfed o)
  | replace list known =>
    obtain ⟨hknown, rfl⟩ := hstep
    exact Tracking.relist hfed hknown
  | pop =>
    obtain ⟨key, fifo, hpop, rfl⟩ := hstep
    have hsettled := settled_process hfed hpop
    -- the invariant is about what is settled, not about what is stored
    exact ⟨fun hk => hsettled ▸ h.astray hk, fun hk => hsettled ▸ h.others hk⟩

/-- **The run.** -/
theorem tracking_of_run (hrun : Run (feedSystem F α) .init tr f) :
    Tracking f (server tr) (missed tr) := by
  induction hrun with
  | nil =>
    exact ⟨fun hk => hk.elim, fun _ => settled_of_nil (items_new _)⟩
  | snoc hrun hstep ih =>
    rw [server, missed, List.foldl_concat, List.foldl_concat]
    exact ih.step (fed_of_run hrun) hstep

/-- **The indexer follows the server.** Over every run of lists, watch events and `Pop`s, in any
interleaving: when nothing waits on the queue, the object that the indexer holds under a key is
the conversion of what the server has there, or there is none and the server has none, if and
only if no list has missed the key since it was last heard of. -/
theorem indexer_follows_server (hrun : Run (feedSystem F α) .init tr f)
    (hidle : pop f.fifo = none) (k : String) :
    f.informer.values k = (server tr k).map Resource.custom ↔ ¬ missed tr k := by
  have htracking := tracking_of_run hrun
  have hsettled : settled f.informer f.fifo = f.informer.values := settled_of_idle hidle
  constructor
  · intro heq hmissed
    obtain ⟨hnone, hsome⟩ := htracking.astray hmissed
    rw [hsettled, heq, hnone] at hsome
    exact absurd hsome (by simp)
  · intro hnot
    rw [← hsettled]
    exact htracking.others hnot

end Following

/-! ### A missed deletion -/

section Samples

variable {F α : Type} [Resource α] [DeltaQueue F String Cache.Delta] {f : Feed F α}

/-- The informer after a `Pop`. -/
def Feed.popped (f : Feed F α) : Feed F α :=
  match pop f.fifo with
  | some (key, fifo) => f.process key fifo
  | none => f

theorem step_popped (hpop : (pop f.fifo).isSome) : (feedSystem F α).step f .pop f.popped := by
  obtain ⟨⟨key, fifo⟩, heq⟩ := Option.isSome_iff_exists.mp hpop
  refine ⟨key, fifo, heq, ?_⟩
  rw [Feed.popped, heq]

omit [Resource α] [DeltaQueue F String Cache.Delta] in
/-- An empty indexer has no keys. -/
theorem lists_of_empty (hf : f.informer.items = .empty) : f.Lists [] := by
  refine ⟨List.nodup_nil, fun {k} => iff_of_false List.not_mem_nil ?_⟩
  rw [hf]
  exact Bool.false_ne_true

end Samples

/-- A Service as the watch delivers it. -/
def rawBasket : V1.Service :=
  { rawService "basket" with
    objectMeta := { rawMeta "basket" [] with ns := "shop" }
    clusterIP := "10.96.0.30"
    ports := [] }

/-- The informer after a list. -/
def listed (list : List V1.Service) : Feed (ChangeQueue String Cache.Delta) V1.Service :=
  Feed.init.relist list []

/-- Two Services are added after an empty list. -/
def basketAdded : Feed (ChangeQueue String Cache.Delta) V1.Service :=
  (listed []).hear .added rawBasket

def bothAdded : Feed (ChangeQueue String Cache.Delta) V1.Service :=
  basketAdded.hear .added (rawService "web")

/-- A list comes before the first `Pop`, and one of them is gone by then. -/
def webRelisted : Feed (ChangeQueue String Cache.Delta) V1.Service :=
  bothAdded.relist [rawService "web"] []

/-- The steps to an empty queue. -/
def basketMissed : List (Transition (Feed (ChangeQueue String Cache.Delta) V1.Service)
    (WatchLabel V1.Service)) :=
  [⟨.init, .replace [] [], listed []⟩,
    ⟨listed [], .added rawBasket, basketAdded⟩,
    ⟨basketAdded, .added (rawService "web"), bothAdded⟩,
    ⟨bothAdded, .replace [rawService "web"] [], webRelisted⟩,
    ⟨webRelisted, .pop, webRelisted.popped⟩,
    ⟨webRelisted.popped, .pop, webRelisted.popped.popped⟩]

/-- The indexer has the one Service as the server has it. The other one is stored, and stays
although the server does not have it. -/
theorem basketMissed_stale :
    webRelisted.popped.popped.informer.values "default/web" =
        some (convertToCustomService (rawService "web")) ∧
      webRelisted.popped.popped.informer.values "shop/basket" ≠
        (server basketMissed "shop/basket").map Resource.custom := by
  have hlist : (feedSystem (ChangeQueue String Cache.Delta) V1.Service).step .init
      (.replace [] []) (listed []) := ⟨lists_of_empty rfl, rfl⟩
  have hbasket : (feedSystem (ChangeQueue String Cache.Delta) V1.Service).step (listed [])
      (.added rawBasket) basketAdded := rfl
  have hweb : (feedSystem (ChangeQueue String Cache.Delta) V1.Service).step basketAdded
      (.added (rawService "web")) bothAdded := rfl
  have hrelist : (feedSystem (ChangeQueue String Cache.Delta) V1.Service).step bothAdded
      (.replace [rawService "web"] []) webRelisted := ⟨lists_of_empty rfl, rfl⟩
  have hrun : Run (feedSystem (ChangeQueue String Cache.Delta) V1.Service) .init basketMissed _ :=
    .snoc (.snoc (.snoc (.snoc (.snoc (.snoc (.nil _) hlist) hbasket) hweb) hrelist)
      (step_popped rfl)) (step_popped rfl)
  have hmissed : missed basketMissed "shop/basket" := ⟨by decide, rfl, rfl⟩
  have hfound : ¬ missed basketMissed "default/web" := fun hnot => absurd hnot.1 (by decide)
  have hserver : server basketMissed "default/web" = some (rawService "web") := rfl
  refine ⟨?_, fun heq => (indexer_follows_server hrun rfl _).mp heq hmissed⟩
  rw [(indexer_follows_server hrun rfl _).mpr hfound, hserver]
  rfl

/-! ### `HasSynced` -/

section Synced

variable {F α : Type} [Resource α] [DeltaQueue F String Cache.Delta] {f f' : Feed F α}
  {tr : List (Transition (Feed F α) (WatchLabel α))} {k : String}

/-- The reflector hears that there is no object under the key. -/
def WatchLabel.Removes (k : String) : WatchLabel α → Prop
  | .deleted o => Resource.key o = k
  | .replace list _ => k ∉ list.map Resource.key
  | .added _ | .modified _ | .pop => False

/-- The label is an event of a watch. -/
def WatchLabel.Watched : WatchLabel α → Prop
  | .added _ | .modified _ | .deleted _ => True
  | .replace _ _ | .pop => False

/-- The reflector lists before it watches. -/
def ListsFirst (tr : List (Transition (Feed F α) (WatchLabel α))) : Prop :=
  ∀ t ∈ tr, t.label.Watched → populated t.pre.fifo = true

/-- The object under the key is stored or of the first list, and nothing on the queue removes
it. -/
structure Arriving (f : Feed F α) (k : String) : Prop where
  kept : ∀ d ∈ items f.fifo k, Change.gone d = false
  there : populated f.fifo = true → (f.informer.values k).isSome ∨ Owed f.fifo k

theorem Arriving.hear (h : Arriving f k) (hfed : Fed f.informer f.fifo)
    (hpop : populated f.fifo = true) (type : Cache.DeltaType) (o : α) :
    Arriving (f.hear type o) k where
  kept d hd := by
    rcases mem_items_add hd with hd | heq
    · exact h.kept d hd
    · obtain ⟨-, rfl⟩ := Prod.ext_iff.mp heq
      rfl
  there _ := by
    -- a watch event comes after the first list, when the key was stored or owed already
    refine (h.there hpop).imp (fun hsome => ?_) fun howed => owed_add _ _ howed
    rw [Feed.hear, Informer.values_receive hfed.owned]
    exact hsome

theorem Arriving.hearGone (h : Arriving f k) (hfed : Fed f.informer f.fifo)
    (hpop : populated f.fifo = true) {o : α} (hkey : Resource.key o ≠ k) :
    Arriving (f.hearGone o) k where
  kept d hd := by
    rw [Feed.hearGone, items_delete] at hd
    split at hd
    · rw [items_add_of_ne _ _ (Ne.symm hkey)] at hd
      exact h.kept d hd
    · exact h.kept d hd
  there _ := by
    refine (h.there hpop).imp (fun hsome => ?_) fun howed => owed_delete _ _ _ howed
    rw [Feed.hearGone, Informer.values_receive hfed.owned]
    exact hsome

/-- The deltas of a list are no deletions. -/
theorem gone_decode {st : Informer α} {list : List α} {d : Cache.Delta}
    (hd : (k, d) ∈ (Feed.decode st list).2) : Change.gone d = false := by
  induction list generalizing st with
  | nil => exact absurd hd List.not_mem_nil
  | cons o list ih =>
    rcases List.mem_cons.mp hd with heq | hd
    · obtain ⟨-, rfl⟩ := Prod.ext_iff.mp heq
      rfl
    · exact ih hd

theorem Arriving.relist (h : Arriving f k) (hfed : Fed f.informer f.fifo) {list : List α}
    {known : List String} (hlisted : k ∈ list.map Resource.key) :
    Arriving (f.relist list known) k := by
  have hkeys : k ∈ (Feed.decode f.informer list).2.map Prod.fst := by
    rw [Feed.keys_decode]
    exact hlisted
  constructor
  · intro d hd
    rcases mem_items_replace hd with hd | hd | hnot
    · exact h.kept d hd
    · exact gone_decode hd
    · exact absurd hkeys hnot
  · intro _
    cases hpop : populated f.fifo with
    -- the first list is what `HasSynced` counts; a later one takes nothing away
    | false => exact Or.inr (owed_first hpop hkeys)
    | true =>
      refine (h.there hpop).imp (fun hsome => ?_) fun howed => owed_replace _ _ _ howed
      rw [Feed.relist, values_decode hfed.owned]
      exact hsome

theorem Arriving.process (h : Arriving f k) (hfed : Fed f.informer f.fifo) {key : String}
    {fifo : F} (hpop : pop f.fifo = some (key, fifo)) : Arriving (f.process key fifo) k where
  kept d hd := h.kept d (mem_items_pop hpop hd).2
  there hpopulated := by
    have hbefore : populated f.fifo = true := (populated_pop hpop).symm.trans hpopulated
    rw [Feed.process, values_process hfed]
    by_cases hkey : k = key
    · -- the key itself is taken, and what is last on the queue is stored
      subst hkey
      have hne := items_ne_nil_of_pop hpop
      have hlast := List.getLast_mem hne
      refine Or.inl ?_
      rw [Table.assign_self, settled, List.getLast?_eq_some_getLast hne]
      have hkept := h.kept _ hlast
      have hallocated := (hfed.placed hlast).allocated
      generalize (items f.fifo k).getLast hne = d at hkept hallocated
      cases d with
      | deleted obj => exact absurd hkept (by simp [Change.gone])
      | set type r =>
        obtain ⟨o, ho⟩ := hallocated.read
        simp [Cache.Delta.result, ho]
    · rw [Table.assign_of_ne _ _ hkey]
      exact (h.there hbefore).imp id fun howed => owed_pop howed hpop hkey

/-- **The step.** -/
theorem Arriving.step {l : WatchLabel α} (h : Arriving f k) (hfed : Fed f.informer f.fifo)
    (hstep : (feedSystem F α).step f l f') (hkept : ¬ l.Removes k)
    (hfirst : l.Watched → populated f.fifo = true) : Arriving f' k := by
  cases l with
  | added o =>
    obtain rfl : f' = f.hear .added o := hstep
    exact h.hear hfed (hfirst trivial) .added o
  | modified o =>
    obtain rfl : f' = f.hear .updated o := hstep
    exact h.hear hfed (hfirst trivial) .updated o
  | deleted o =>
    obtain rfl : f' = f.hearGone o := hstep
    exact h.hearGone hfed (hfirst trivial) hkept
  | replace list known =>
    obtain ⟨-, rfl⟩ := hstep
    exact h.relist hfed (not_not.mp hkept)
  | pop =>
    obtain ⟨key, fifo, hpop, rfl⟩ := hstep
    exact h.process hfed hpop

/-- **The run.** -/
theorem arriving_of_run (hrun : Run (feedSystem F α) .init tr f) (hfirst : ListsFirst tr)
    (hkept : ∀ t ∈ tr, ¬ t.label.Removes k) : Arriving f k := by
  induction hrun with
  | nil =>
    refine ⟨fun d hd => ?_, fun hpop => ?_⟩
    · rw [Feed.init, items_new] at hd
      exact absurd hd List.not_mem_nil
    · rw [Feed.init, populated_new] at hpop
      exact absurd hpop Bool.false_ne_true
  | snoc hrun hstep ih =>
    have hbefore := ih (fun t ht => hfirst t (List.mem_append_left _ ht))
      fun t ht => hkept t (List.mem_append_left _ ht)
    have hkept := hkept _ (List.mem_append_right _ (List.mem_singleton_self _))
    have hfirst := hfirst _ (List.mem_append_right _ (List.mem_singleton_self _))
    exact hbefore.step (fed_of_run hrun) hstep hkept hfirst

omit [Resource α] in
/-- Nothing of the first list is left once the queue has synced. -/
theorem isSome_of_arriving (h : Arriving f k) (hsynced : hasSynced f.fifo = true) :
    (f.informer.values k).isSome :=
  (h.there (populated_of_hasSynced hsynced)).resolve_right (not_owed hsynced k)

/-- **What `HasSynced` promises.** Over every run of lists, watch events and `Pop`s in which a
list comes before the first watch event, in any interleaving: once `HasSynced` answers `true`,
the indexer has an object under every key that all lists have had and that has not been
deleted. -/
theorem stored_of_hasSynced (hrun : Run (feedSystem F α) .init tr f) (hfirst : ListsFirst tr)
    (hsynced : hasSynced f.fifo = true) (hkept : ∀ t ∈ tr, ¬ t.label.Removes k) :
    (f.informer.values k).isSome :=
  isSome_of_arriving (arriving_of_run hrun hfirst hkept) hsynced

end Synced

/-- Two Services are listed and a third one is added. -/
def bothListed : Feed (ChangeQueue String Cache.Delta) V1.Service :=
  listed [rawBasket, rawService "web"]

def mailAdded : Feed (ChangeQueue String Cache.Delta) V1.Service :=
  bothListed.hear .added (rawService "mail")

/-- The first two have been taken, and the third one still waits. -/
theorem bothListed_stored :
    (mailAdded.popped.popped.informer.values "default/web").isSome ∧
      (pop mailAdded.popped.popped.fifo).isSome := by
  have hlist : (feedSystem (ChangeQueue String Cache.Delta) V1.Service).step .init
      (.replace [rawBasket, rawService "web"] []) bothListed := ⟨lists_of_empty rfl, rfl⟩
  have hadd : (feedSystem (ChangeQueue String Cache.Delta) V1.Service).step bothListed
      (.added (rawService "mail")) mailAdded := rfl
  have hrun := (((Run.nil _).snoc hlist).snoc hadd).snoc (step_popped (f := mailAdded) rfl)
  have hrun := hrun.snoc (step_popped (f := mailAdded.popped) rfl)
  refine ⟨stored_of_hasSynced hrun ?_ rfl ?_, rfl⟩
  · simp only [ListsFirst, List.nil_append, List.cons_append, List.forall_mem_cons,
      List.not_mem_nil, false_imp_iff, implies_true, and_true]
    exact ⟨False.elim, fun _ => rfl, False.elim, False.elim⟩
  · simp only [List.nil_append, List.cons_append, List.forall_mem_cons, List.not_mem_nil,
      false_imp_iff, implies_true, and_true]
    exact ⟨fun hnot => hnot (by decide), id, id, id⟩

end EProxy
