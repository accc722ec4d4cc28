import EProxy.Manager.Store

/-!
# Service ids

The allocation loop of `AppendService` looks for the first id that is not in
`cacheSerivceId`, but the id it marks as used is the one the object had before. The
objects `NewService` builds have id `0`, so `0` is the only id a run ever marks and
every service gets id `1` (`OneId`).

Ids are therefore pairwise different exactly as long as no two services are live
together, which is a condition on the updates of the run
(`idsDistinct_iff_updatesAlone`).
-/

namespace EProxy

open Framework

/-- `UpdateService` of objects as `NewService` builds them, and `DeleteService`. -/
def Call.Fresh : Call → Prop
  | .updateService svc => svc.serviceId = 0
  | .deleteService _ => True
  | _ => False

theorem Call.Fresh.updateOrDelete {call : Call} (h : call.Fresh) : call.UpdateOrDelete := by
  cases call <;> first | exact trivial | exact h.elim

theorem Call.Fresh.notAppend {call : Call} (h : call.Fresh) : call.NotAppend := by
  cases call <;> first | exact trivial | exact h.elim

/-- Live services have nonzero ids, different ones under different keys. -/
def IdsDistinct (s : ServiceManager) : Prop :=
  (∀ k k' svc svc', s.services k = some svc → s.services k' = some svc' → k ≠ k' →
    svc.serviceId ≠ svc'.serviceId) ∧
  ∀ k svc, s.services k = some svc → svc.serviceId ≠ 0

/-- No service other than `key` is live. -/
def AloneAt (s : ServiceManager) (key : String) : Prop :=
  ∀ k, (s.services k).isSome → k = key

/-- Every `UpdateService` of a run is called when no other service is live. -/
def UpdatesAlone (tr : List (Transition ServiceManager Invocation)) : Prop :=
  ∀ t ∈ tr, ∀ svc, t.label.call = .updateService svc → AloneAt t.pre svc.serviceKey

/-! ### The allocator -/

theorem freeId_eq_one {cache : Table UInt16 Bool} (h : cache 1 = none) :
    freeId cache = some 1 := by
  rw [freeId, show (65534 : ℕ) = 65533 + 1 from rfl, List.range'_succ, List.find?_cons_of_pos]
  change (cache 1).isNone = true
  rw [h]
  rfl

/-- For an object without an id the loop marks `0`, and no other id. -/
theorem allocate_cache_of_fresh (cache : Table UInt16 Bool) {svc : Service}
    (hfresh : svc.serviceId = 0) {id : UInt16} (hid : id ≠ 0) :
    (allocate cache svc).1 id = cache id := by
  unfold allocate
  cases freeId cache with
  | none => rfl
  | some i =>
    change cache.set svc.serviceId true id = cache id
    rw [hfresh, Table.set_of_ne _ _ hid]

/-- The only id marked is `0`, and every live service has id `1`. -/
structure OneId (s : ServiceManager) : Prop where
  cache : ∀ id, id ≠ 0 → s.cacheSerivceId id = none
  ids : ∀ k svc, s.services k = some svc → svc.serviceId = 1

variable {s s₁ s' : ServiceManager} {key : String} {svc : Service} {order : List Ports}

theorem OneId.allocate_eq (h : OneId s) (svc : Service) :
    allocate s.cacheSerivceId svc =
      (s.cacheSerivceId.set svc.serviceId true, { svc with serviceId := 1 }) := by
  rw [allocate, freeId_eq_one (h.cache 1 (by decide))]
  rfl

theorem oneId_init (maps : Maps) : OneId (newServiceManager maps) :=
  ⟨fun _ _ => rfl, fun k svc h => absurd h (by simp [newServiceManager])⟩

theorem Dropped.oneId (h : Dropped s key s') (hI : OneId s) : OneId s' := by
  refine ⟨fun id hid => ?_, fun k svc hk => ?_⟩
  · rw [h.cache]
    exact hI.cache id hid
  · rw [h.services] at hk
    exact hI.ids k svc (Table.of_erase hk)

theorem Cleared.oneId (h : Cleared s key s') (hI : OneId s) : OneId s' := by
  have hdrop : Dropped s key s' := by
    refine ⟨?_, h.cache⟩
    funext k
    rw [h.services_apply, Table.erase_apply]
  exact hdrop.oneId hI

theorem Renumbered.oneId (h : Renumbered s key svc s') (hfresh : svc.serviceId = 0)
    (hI : OneId s) : OneId s' := by
  obtain ⟨r, hservices, hid⟩ := h.services
  refine ⟨fun id hne => ?_, fun k x hk => ?_⟩
  · rw [h.cache, allocate_cache_of_fresh _ hfresh hne]
    exact hI.cache id hne
  · rw [hservices, Table.set_apply] at hk
    split at hk
    · obtain rfl := Option.some.inj hk
      rw [hid, hI.allocate_eq]
    · exact hI.ids k x hk

/-! ### Steps and runs -/

/-- **Everything a call on a new object can do** to the two tables. -/
theorem fresh_step_cases (hk : Keyed s.services) {l : Invocation}
    (h : (returningSystem Call.Fresh).step s l s') :
    (∃ key, l.call = .deleteService key ∧ Dropped s key s') ∨
    ∃ svc, l.call = .updateService svc ∧ svc.serviceId = 0 ∧
      Renumbered s svc.serviceKey svc s' := by
  have hfresh := h.1
  have hbooks := bookStep_of_step hk ⟨h.1.notAppend, h.2⟩
  generalize l.call = call at hfresh hbooks
  cases hbooks with
  | updateService svc hnew => exact Or.inr ⟨svc, rfl, hfresh, hnew⟩
  | deleteService key hdrop => exact Or.inl ⟨key, rfl, hdrop⟩
  | unlabelled => exact hfresh.elim
  | onUpdateEndpointSlice => exact hfresh.elim
  | onDeleteEndpointSlice => exact hfresh.elim

theorem fresh_step_invariant {l : Invocation} (hI : Keyed s.services ∧ OneId s)
    (h : (returningSystem Call.Fresh).step s l s') : Keyed s'.services ∧ OneId s' := by
  obtain ⟨hk, ho⟩ := hI
  refine ⟨h.2.2 ▸ invoke_keyed _ _ hk, ?_⟩
  rcases fresh_step_cases hk h with ⟨key, _, hdrop⟩ | ⟨svc, _, hfresh, hnew⟩
  · exact hdrop.oneId ho
  · exact hnew.oneId hfresh ho

/-- With one id for all, different ids means at most one live service. -/
theorem OneId.idsDistinct_iff (h : OneId s) :
    IdsDistinct s ↔ ∀ k k', (s.services k).isSome → (s.services k').isSome → k = k' := by
  constructor
  · intro hd k k' hk hk'
    obtain ⟨svc, hsvc⟩ := Option.isSome_iff_exists.mp hk
    obtain ⟨svc', hsvc'⟩ := Option.isSome_iff_exists.mp hk'
    by_contra hne
    exact hd.1 k k' svc svc' hsvc hsvc' hne ((h.ids k svc hsvc).trans (h.ids k' svc' hsvc').symm)
  · intro hone
    refine ⟨fun k k' svc svc' hk hk' hne => ?_, fun k svc hk => ?_⟩
    · exact absurd (hone k k' (by rw [hk]; rfl) (by rw [hk']; rfl)) hne
    · rw [h.ids k svc hk]
      decide

/-- The state after an update holds the updated service and those that were live
under other keys. -/
theorem Renumbered.live_iff (h : Renumbered s key svc s') (k : String) :
    (s'.services k).isSome ↔ k = key ∨ (s.services k).isSome := by
  obtain ⟨r, hservices, -⟩ := h.services
  rw [hservices, Table.set_apply]
  by_cases hk : k = key <;> simp [hk]

theorem Dropped.live (h : Dropped s key s') {k : String} (hk : (s'.services k).isSome) :
    (s.services k).isSome := by
  obtain ⟨svc, hsvc⟩ := Option.isSome_iff_exists.mp hk
  rw [h.services] at hsvc
  exact Option.isSome_iff_exists.mpr ⟨svc, Table.of_erase hsvc⟩

/-- A step keeps ids different exactly when, if it is an update, no other service is
live. -/
theorem fresh_step_idsDistinct {l : Invocation} (hI : Keyed s.services ∧ OneId s)
    (hd : IdsDistinct s) (h : (returningSystem Call.Fresh).step s l s') :
    IdsDistinct s' ↔ ∀ svc, l.call = .updateService svc → AloneAt s svc.serviceKey := by
  -- both states have one id only, so in both it is the live keys that count
  have ho' := (fresh_step_invariant hI h).2
  rw [ho'.idsDistinct_iff]
  rw [hI.2.idsDistinct_iff] at hd
  rcases fresh_step_cases hI.1 h with ⟨key, hcall, hdrop⟩ | ⟨svc, hcall, _, hnew⟩
  · refine iff_of_true (fun k k' hk hk' => ?_) fun svc hc => absurd (hcall.symm.trans hc) (by simp)
    exact hd k k' (hdrop.live hk) (hdrop.live hk')
  · simp only [hnew.live_iff, hcall, Call.updateService.injEq, forall_eq']
    constructor
    · intro hone k hk
      exact hone k svc.serviceKey (Or.inr hk) (Or.inl rfl)
    · intro halone k k' hk hk'
      rw [hk.elim id (halone k), hk'.elim id (halone k')]

/-- **Exactly when ids never collide.** Over every run of calls that return, on
objects as `NewService` builds them, from a new manager over any maps: every state the run
goes through has pairwise different nonzero ids if and only if every update of the run meets
no other live service. -/
theorem idsDistinct_iff_updatesAlone {maps : Maps}
    {tr : List (Transition ServiceManager Invocation)}
    (hrun : Run (returningSystem Call.Fresh) (newServiceManager maps) tr s) :
    (∀ t ∈ tr, IdsDistinct t.post) ↔ UpdatesAlone tr := by
  have hinit : IdsDistinct (newServiceManager maps) :=
    (oneId_init maps).idsDistinct_iff.mpr fun k k' hk => absurd hk (by simp [newServiceManager])
  exact hrun.forall_iff_forall
    (I := fun s => (Keyed s.services ∧ OneId s) ∧ IdsDistinct s)
    (P := fun _ _ s' => IdsDistinct s')
    (Q := fun s (l : Invocation) _ => ∀ svc, l.call = .updateService svc →
      AloneAt s svc.serviceKey)
    ⟨⟨keyed_empty, oneId_init maps⟩, hinit⟩
    (fun _ _ _ hI hst => fresh_step_idsDistinct hI.1 hI.2 hst)
    fun _ _ _ hI hd hst => ⟨fresh_step_invariant hI.1 hst, hd⟩

/-- A service with one port and no endpoint at a VIP of its own. -/
def bareService (name : String) (host : UInt8) : Service :=
  { plainService name host with endpoints := [] }

/-- The manager after a first service, after its removal and after a second one. -/
def bareFirst : ServiceManager :=
  ((newServiceManager Maps.empty).invoke .calm (.updateService (bareService "a" 1))).2.mgr

def bareRemoved : ServiceManager :=
  (bareFirst.invoke .calm (.deleteService "default/a")).2.mgr

def bareSecond : ServiceManager :=
  (bareRemoved.invoke .calm (.updateService (bareService "b" 2))).2.mgr

/-- Services that follow one another have ids of their own. -/
theorem idsDistinct_bareSecond :
    (bareSecond.services "default/b").isSome ∧ IdsDistinct bareFirst ∧ IdsDistinct bareRemoved ∧
      IdsDistinct bareSecond := by
  have hfirst : (returningSystem Call.Fresh).step (newServiceManager Maps.empty)
      ⟨.updateService (bareService "a" 1), .calm⟩ bareFirst := ⟨rfl, by decide, rfl⟩
  have hremoved : (returningSystem Call.Fresh).step bareFirst
      ⟨.deleteService "default/a", .calm⟩ bareRemoved := ⟨trivial, by decide, rfl⟩
  have hsecond : (returningSystem Call.Fresh).step bareRemoved
      ⟨.updateService (bareService "b" 2), .calm⟩ bareSecond := ⟨rfl, by decide, rfl⟩
  have hempty : bareRemoved.services = (Table.empty.set "default/a"
      { bareService "a" 1 with serviceId := 1 }).erase "default/a" := rfl
  rw [Table.set_erase, Table.erase_of_absent rfl] at hempty
  have hids := (idsDistinct_iff_updatesAlone
    ((((Run.nil _).snoc hfirst).snoc hremoved).snoc hsecond)).mpr (by
    intro t ht svc hcall k hk
    simp only [List.nil_append, List.cons_append, List.mem_cons, List.not_mem_nil, or_false] at ht
    rcases ht with rfl | rfl | rfl
    · exact absurd hk (by simp [newServiceManager])
    · exact absurd hcall (by simp)
    · rw [hempty] at hk
      exact absurd hk (by simp))
  simp only [List.nil_append, List.cons_append, List.forall_mem_cons, List.not_mem_nil,
    false_imp_iff, implies_true, and_true] at hids
  exact ⟨by decide, hids⟩

/-- Two services published one after the other both get id `1`. -/
theorem two_services_share_id :
    ∃ s, (returningSystem Call.Fresh).Reachable s ∧
      s.services "default/a" = some { plainService "a" 1 with serviceId := 1 } ∧
      s.services "default/b" = some { plainService "b" 2 with serviceId := 1 } ∧
      ¬ IdsDistinct s := by
  have hfirst : (returningSystem Call.Fresh).step (newServiceManager Maps.empty)
      ⟨.updateService (plainService "a" 1), .calm⟩ afterFirst := ⟨rfl, by decide, rfl⟩
  have hsecond : (returningSystem Call.Fresh).step afterFirst
      ⟨.updateService (plainService "b" 2), .calm⟩
      (afterFirst.invoke .calm (.updateService (plainService "b" 2))).2.mgr :=
    ⟨rfl, by decide, rfl⟩
  refine ⟨_, ((System.reachable_init _).step hfirst).step hsecond, by decide, by decide,
    fun hd => ?_⟩
  exact hd.1 "default/a" "default/b" { plainService "a" 1 with serviceId := 1 }
    { plainService "b" 2 with serviceId := 1 } (by decide) (by decide) (by decide) rfl

end EProxy
