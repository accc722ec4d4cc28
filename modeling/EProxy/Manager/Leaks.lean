import Mathlib.Order.Interval.Finset.Nat
import EProxy.Manager.Ids
import EProxy.Manager.SliceEvents

/-!
# Marked ids and the services that have them

An id marked in `cacheSerivceId` is never given out again, so it should be one that a
live service has. Nothing in the manager unmarks an id, and the allocation loop marks the
id the object had before, which is the id of the entry that `OnUpdateEndpointSlice` has
just removed. `IdsReturned` is what one would want; a step keeps it exactly when the
service it drops or renumbers does not leave behind a mark that is its own
(`Call.Conserves`), and `idsReturned_iff_conserves` is the statement for whole runs.

A step is taken apart by `BookStep`. The controller only updates with new objects and deletes,
and along such runs nothing leaks (`idsReturned_of_fresh`).
-/

namespace EProxy

open Framework

variable {env : Env} {s s₁ s' : ServiceManager} {key : String} {svc : Service}

/-- A live service has the id. -/
def ServiceManager.Holds (s : ServiceManager) (id : UInt16) : Prop :=
  ∃ key svc, s.services key = some svc ∧ svc.serviceId = id

/-- A live service under another key has the id. -/
def ServiceManager.HoldsBeside (s : ServiceManager) (key : String) (id : UInt16) : Prop :=
  ∃ k svc, k ≠ key ∧ s.services k = some svc ∧ svc.serviceId = id

/-- Every nonzero id that is marked is some live service's. So the allocation loop finds an
id as long as the live services, all of them among `live`, are fewer than the ids. -/
structure IdsReturned (s : ServiceManager) : Prop where
  held : ∀ id, id ≠ 0 → (s.cacheSerivceId id).isSome → s.Holds id
  available : ∀ live : Finset String, (∀ key, (s.services key).isSome → key ∈ live) →
    live.card < 65534 → (freeId s.cacheSerivceId).isSome

/-! ### The condition -/

/-- The service of the key, if there is one, can go: it has id `0`, an id that is not
marked, or one that another live service has too. -/
def Droppable (s : ServiceManager) (key : String) : Prop :=
  ∀ svc, s.services key = some svc →
    svc.serviceId = 0 ∨ s.cacheSerivceId svc.serviceId = none ∨ s.HoldsBeside key svc.serviceId

/-- An object with the id `id` can be stored under the key. While there are ids left, the
service it replaces can go, and `id`, which gets marked, is `0`, another live service's or
the very id the object is given. Without ids left `id` is also the one the object keeps. -/
def Renumberable (s : ServiceManager) (key : String) (id : UInt16) : Prop :=
  match freeId s.cacheSerivceId with
  | some i => Droppable s key ∧ (id = 0 ∨ id = UInt16.ofNat i ∨ s.HoldsBeside key id)
  | none => Droppable s key ∨ ∃ old, s.services key = some old ∧ old.serviceId = id

/-- The call leaves no id marked for nothing. -/
def Call.Conserves (s : ServiceManager) : Call → Prop
  | .updateService svc | .appendService svc => Renumberable s svc.serviceKey svc.serviceId
  | .deleteService key => Droppable s key
  | .onUpdateEndpointSlice new => new.labels = [] ∨
      ∀ svc, s.services (sliceKey new) = some svc → Renumberable s (sliceKey new) svc.serviceId
  | .onDeleteEndpointSlice slice => Droppable s (sliceKey slice)

/-! ### The allocation loop -/

theorem freeId_spec {cache : Table UInt16 Bool} {i : ℕ} (h : freeId cache = some i) :
    0 < i ∧ i < 65535 ∧ cache (UInt16.ofNat i) = none := by
  have hmem := List.mem_range'_1.mp (List.mem_of_find?_eq_some h)
  have hfree := List.find?_some h
  exact ⟨by omega, by omega, Option.isNone_iff_eq_none.mp hfree⟩

theorem freeId_isSome {cache : Table UInt16 Bool} {i : ℕ} (hpos : 0 < i) (hlt : i < 65535)
    (h : cache (UInt16.ofNat i) = none) : (freeId cache).isSome := by
  rw [freeId, List.find?_isSome]
  exact ⟨i, List.mem_range'_1.mpr (by omega), Option.isNone_iff_eq_none.mpr h⟩

theorem toNat_ofNat_id {i : ℕ} (hlt : i < 65535) : (UInt16.ofNat i).toNat = i :=
  UInt16.toNat_ofNat_of_lt' (hlt.trans (by decide))

theorem ofNat_ne_zero {i : ℕ} (hpos : 0 < i) (hlt : i < 65535) : UInt16.ofNat i ≠ 0 := by
  intro h
  have hnat : (UInt16.ofNat i).toNat = 0 := by rw [h]; rfl
  rw [toNat_ofNat_id hlt] at hnat
  omega

/-- With fewer live services than ids, one of the ids is no live service's. -/
theorem exists_not_holds {live : Finset String}
    (hlive : ∀ key, (s.services key).isSome → key ∈ live) (hcard : live.card < 65534) :
    ∃ i, 0 < i ∧ i < 65535 ∧ ¬ s.Holds (UInt16.ofNat i) := by
  -- the ids of the live services, as numbers
  let used : Finset ℕ := live.image fun key =>
    ((s.services key).map fun svc => svc.serviceId.toNat).getD 0
  have hused : used.card < (Finset.Icc 1 65534).card := by
    calc used.card ≤ live.card := Finset.card_image_le
      _ < 65534 := hcard
      _ = (Finset.Icc 1 65534).card := by rw [Nat.card_Icc]
  obtain ⟨i, hmem, hnot⟩ := Finset.exists_mem_notMem_of_card_lt_card hused
  have hi := Finset.mem_Icc.mp hmem
  refine ⟨i, by omega, by omega, ?_⟩
  rintro ⟨key, svc, hsvc, hid⟩
  refine hnot (Finset.mem_image.mpr ⟨key, hlive key (by rw [hsvc]; rfl), ?_⟩)
  rw [hsvc]
  change svc.serviceId.toNat = i
  rw [hid, toNat_ofNat_id (by omega)]

theorem idsReturned_iff : IdsReturned s ↔
    ∀ id, id ≠ 0 → (s.cacheSerivceId id).isSome → s.Holds id := by
  refine ⟨IdsReturned.held, fun hheld => ⟨hheld, fun live hlive hcard => ?_⟩⟩
  obtain ⟨i, hpos, hlt, hnot⟩ := exists_not_holds hlive hcard
  refine freeId_isSome hpos hlt (Option.not_isSome_iff_eq_none.mp fun hmarked => ?_)
  exact hnot (hheld _ (ofNat_ne_zero hpos hlt) hmarked)

/-! ### Who holds which id -/

theorem Dropped.holds_iff (h : Dropped s key s') (id : UInt16) :
    s'.Holds id ↔ s.HoldsBeside key id := by
  unfold ServiceManager.Holds ServiceManager.HoldsBeside
  rw [h.services]
  constructor
  · rintro ⟨k, svc, hk, hid⟩
    refine ⟨k, svc, ?_, Table.of_erase hk, hid⟩
    rintro rfl
    exact absurd hk (by simp)
  · rintro ⟨k, svc, hne, hk, hid⟩
    exact ⟨k, svc, (Table.erase_of_ne _ hne).trans hk, hid⟩

theorem Renumbered.holds_iff {obj : Service} (h : Renumbered s key obj s') (id : UInt16) :
    s'.Holds id ↔
      id = (allocate s.cacheSerivceId obj).2.serviceId ∨ s.HoldsBeside key id := by
  obtain ⟨r, hservices, hr⟩ := h.services
  unfold ServiceManager.Holds ServiceManager.HoldsBeside
  rw [hservices]
  constructor
  · rintro ⟨k, svc, hk, hid⟩
    by_cases hkey : k = key
    · rw [hkey, Table.set_self] at hk
      obtain rfl := Option.some.inj hk
      exact Or.inl (hid.symm.trans hr)
    · rw [Table.set_of_ne _ _ hkey] at hk
      exact Or.inr ⟨k, svc, hkey, hk, hid⟩
  · rintro (hid | ⟨k, svc, hne, hk, hid⟩)
    · exact ⟨key, r, Table.set_self .., hr.trans hid.symm⟩
    · exact ⟨k, svc, (Table.set_of_ne _ _ hne).trans hk, hid⟩

/-- Where every marked id is held, what the service of a key would leave behind when it
goes are the marked ids that no other service has. -/
theorem droppable_iff (h : IdsReturned s) (key : String) : Droppable s key ↔
    ∀ id, id ≠ 0 → (s.cacheSerivceId id).isSome → s.HoldsBeside key id := by
  constructor
  · intro hdrop id hid hmarked
    obtain ⟨k, svc, hk, rfl⟩ := h.held id hid hmarked
    by_cases hkey : k = key
    · subst hkey
      rcases hdrop svc hk with hzero | hfree | hbeside
      · exact absurd hzero hid
      · rw [hfree] at hmarked
        exact absurd hmarked (by simp)
      · exact hbeside
    · exact ⟨k, svc, hkey, hk, rfl⟩
  · intro hall svc _
    by_cases hzero : svc.serviceId = 0
    · exact Or.inl hzero
    · cases hmarked : s.cacheSerivceId svc.serviceId with
      | none => exact Or.inr (Or.inl rfl)
      | some b => exact Or.inr (Or.inr (hall _ hzero (by rw [hmarked]; rfl)))

/-- **The step, for a service that goes.** -/
theorem Dropped.idsReturned_iff (h : Dropped s key s') (hret : IdsReturned s) :
    IdsReturned s' ↔ Droppable s key := by
  rw [EProxy.idsReturned_iff, droppable_iff hret, h.cache]
  simp only [h.holds_iff]

/-- With every id marked the loop leaves the cache as it is and the object keeps `id`. -/
theorem kept_id_iff (hret : IdsReturned s) (key : String) (id : UInt16) :
    (∀ x, x ≠ 0 → (s.cacheSerivceId x).isSome → x = id ∨ s.HoldsBeside key x) ↔
      Droppable s key ∨ ∃ old, s.services key = some old ∧ old.serviceId = id := by
  constructor
  · intro hall
    by_cases hold : ∃ old, s.services key = some old ∧ old.serviceId = id
    · exact Or.inr hold
    · refine Or.inl ((droppable_iff hret key).mpr fun x hx hmarked => ?_)
      rcases hall x hx hmarked with rfl | hbeside
      · -- the holder of the kept id is not the entry of the key
        obtain ⟨k, svc, hk, hid⟩ := hret.held x hx hmarked
        refine ⟨k, svc, ?_, hk, hid⟩
        rintro rfl
        exact hold ⟨svc, hk, hid⟩
      · exact hbeside
  · rintro (hdrop | ⟨old, hold, rfl⟩) x hx hmarked
    · exact Or.inr ((droppable_iff hret key).mp hdrop x hx hmarked)
    · obtain ⟨k, svc, hk, hid⟩ := hret.held x hx hmarked
      by_cases hkey : k = key
      · rw [hkey, hold] at hk
        obtain rfl := Option.some.inj hk
        exact Or.inl hid.symm
      · exact Or.inr ⟨k, svc, hkey, hk, hid⟩

/-- With an id `i` free the loop marks `id` and the object gets `i`. -/
theorem new_id_iff (hret : IdsReturned s) (key : String) (id : UInt16) {i : UInt16}
    (hfree : s.cacheSerivceId i = none) :
    (∀ x, x ≠ 0 → (s.cacheSerivceId.set id true x).isSome → x = i ∨ s.HoldsBeside key x) ↔
      Droppable s key ∧ (id = 0 ∨ id = i ∨ s.HoldsBeside key id) := by
  constructor
  · intro hall
    refine ⟨(droppable_iff hret key).mpr fun x hx hmarked => ?_, ?_⟩
    · have hset : (s.cacheSerivceId.set id true x).isSome := by
        rw [Table.set_apply]
        split
        · rfl
        · exact hmarked
      rcases hall x hx hset with rfl | hbeside
      · -- the new id was not marked before
        rw [hfree] at hmarked
        exact absurd hmarked (by simp)
      · exact hbeside
    · by_cases hzero : id = 0
      · exact Or.inl hzero
      · exact Or.inr (hall id hzero (by rw [Table.set_self]; rfl))
  · rintro ⟨hdrop, hid⟩ x hx hmarked
    -- a mark is the one just set or an old one
    rw [Table.set_apply] at hmarked
    split at hmarked
    · next heq =>
      subst heq
      exact hid.resolve_left hx
    · exact Or.inr ((droppable_iff hret key).mp hdrop x hx hmarked)

/-- **The step, for a service that gets a new id.** -/
theorem Renumbered.idsReturned_iff {obj : Service} (h : Renumbered s key obj s')
    (hret : IdsReturned s) : IdsReturned s' ↔ Renumberable s key obj.serviceId := by
  rw [EProxy.idsReturned_iff, h.cache]
  simp only [h.holds_iff]
  unfold Renumberable allocate
  cases hfree : freeId s.cacheSerivceId with
  | none => exact kept_id_iff hret key obj.serviceId
  | some i => exact new_id_iff hret key obj.serviceId (freeId_spec hfree).2.2

/-! ### Steps and runs -/

/-- **The step.** From a state in which no id is leaked, a call that returns leaks none
exactly if it meets the condition. -/
theorem BookStep.idsReturned_iff {call : Call} (h : BookStep s s' call) (hret : IdsReturned s) :
    IdsReturned s' ↔ call.Conserves s := by
  cases h with
  | updateService svc hnew => exact hnew.idsReturned_iff hret
  | deleteService key hdrop => exact hdrop.idsReturned_iff hret
  | onDeleteEndpointSlice slice hdrop => exact hdrop.idsReturned_iff hret
  | unlabelled new hlabels hsame =>
    rw [hsame]
    exact iff_of_true hret (Or.inl hlabels)
  | onUpdateEndpointSlice new service eps hlabels hlive hnew =>
    rw [hnew.idsReturned_iff hret]
    simp only [Call.Conserves, hlabels, hlive, false_or, Option.some.injEq, forall_eq']

/-- **Exactly when no id is leaked.** Over every run of calls that return, from a new
manager over any maps: in every state the run goes through each marked nonzero id is a live
service's, and so the loop does not run out of ids before the live services have them all,
if and only if every call of the run meets the condition. -/
theorem idsReturned_iff_conserves {maps : Maps}
    {tr : List (Transition ServiceManager Invocation)}
    (hrun : Run (returningSystem Call.NotAppend) (newServiceManager maps) tr s) :
    (∀ t ∈ tr, IdsReturned t.post) ↔ ∀ t ∈ tr, t.label.call.Conserves t.pre := by
  have hinit : IdsReturned (newServiceManager maps) :=
    idsReturned_iff.mpr fun id _ hmarked => absurd hmarked (by simp [newServiceManager])
  exact hrun.forall_iff_forall
    (I := fun s => Keyed s.services ∧ IdsReturned s)
    (P := fun _ _ s' => IdsReturned s')
    (Q := fun s (l : Invocation) _ => l.call.Conserves s)
    ⟨keyed_empty, hinit⟩
    (fun _ _ _ hI hst => (bookStep_of_step hI.1 hst).idsReturned_iff hI.2)
    fun _ _ _ hI hret hst => ⟨hst.2.2 ▸ invoke_keyed _ _ hI.1, hret⟩

/-- A second service beside the idle one. -/
def deskService : Service := { idleIn "desk" "desk" with ipAddress := [10, 96, 0, 10] }

/-- The manager that has published both. -/
def holdsBoth : ServiceManager :=
  ((holdsIdle "cart" "cart").invoke .calm (.updateService deskService)).2.mgr

/-- The manager that has removed the first one again. -/
def holdsDesk : ServiceManager := (holdsBoth.invoke .calm (.deleteService "cart/cart")).2.mgr

/-- Two services are published and one is removed. Their objects come with id `0`, so no other
id is marked, and none is leaked. -/
theorem idsReturned_holdsDesk :
    (holdsDesk.services "cart/cart").isNone ∧ (holdsDesk.services "desk/desk").isSome ∧
      IdsReturned holdsDesk := by
  have hfirst : (returningSystem Call.NotAppend).step (newServiceManager Maps.empty)
      ⟨.updateService (idleIn "cart" "cart"), .calm⟩ (holdsIdle "cart" "cart") :=
    ⟨trivial, by decide, rfl⟩
  have hsecond : (returningSystem Call.NotAppend).step (holdsIdle "cart" "cart")
      ⟨.updateService deskService, .calm⟩ holdsBoth := ⟨trivial, by decide, rfl⟩
  have hremoved : (returningSystem Call.NotAppend).step holdsBoth
      ⟨.deleteService "cart/cart", .calm⟩ holdsDesk := ⟨trivial, by decide, rfl⟩
  -- an object without an id goes where no service is, and the id of the removed one is not marked
  have hnew : ∀ {s : ServiceManager} {obj : Service}, s.cacheSerivceId 1 = none →
      s.services obj.serviceKey = none → obj.serviceId = 0 →
        (Call.updateService obj).Conserves s := by
    intro s obj hfree hnone hzero
    simp only [Call.Conserves, Renumberable, freeId_eq_one hfree]
    exact ⟨fun svc hsvc => absurd (hnone.symm.trans hsvc) (by simp), Or.inl hzero⟩
  have hids := (idsReturned_iff_conserves
    ((((Run.nil _).snoc hfirst).snoc hsecond).snoc hremoved)).mpr (by
    simp only [List.nil_append, List.cons_append, List.forall_mem_cons, List.not_mem_nil,
      false_imp_iff, implies_true, and_true]
    refine ⟨hnew rfl rfl rfl, hnew rfl (by decide) rfl, fun svc hsvc => ?_⟩
    have hheld : holdsBoth.services "cart/cart" =
        some { idleIn "cart" "cart" with serviceId := 1 } := by decide
    obtain rfl := Option.some.inj (hheld.symm.trans hsvc)
    exact Or.inr (Or.inl rfl))
  simp only [List.nil_append, List.cons_append, List.forall_mem_cons, List.not_mem_nil,
    false_imp_iff, implies_true, and_true] at hids
  exact ⟨by decide, by decide, hids.2.2⟩

/-- The idle service as it is published, before and after the event. -/
def publishedIdle : Service := { idleIn "cart" "cart" with serviceId := 1 }

/-- A slice of that service; its name is its namespace, so the event reaches it. -/
def cartSlice : Api.EndpointSlice :=
  emptySlice ⟨"cart", by decide⟩ ⟨"cart", by decide⟩ (by decide)

/-- The manager that has published an idle service and then got a slice of it. -/
def holdsMarked : ServiceManager :=
  ((holdsIdle "cart" "cart").invoke .calm (.onUpdateEndpointSlice cartSlice)).2.mgr

/-- A service is published, gets a slice event and is deleted: the event marks its id, and
the mark stays when the service is gone. -/
theorem deletion_leaks_id :
    ∃ s, (returningSystem Call.NotAppend).Reachable s ∧ s.services = Table.empty ∧
      (s.cacheSerivceId 1).isSome ∧ ¬ IdsReturned s := by
  have hfirst : (returningSystem Call.NotAppend).step (newServiceManager Maps.empty)
      ⟨.updateService (idleIn "cart" "cart"), .calm⟩ (holdsIdle "cart" "cart") :=
    ⟨trivial, by decide, rfl⟩
  have hslice : (returningSystem Call.NotAppend).step (holdsIdle "cart" "cart")
      ⟨.onUpdateEndpointSlice cartSlice, .calm⟩ holdsMarked := ⟨trivial, by decide, rfl⟩
  have hdelete : (returningSystem Call.NotAppend).step holdsMarked
      ⟨.deleteService "cart/cart", .calm⟩
      (holdsMarked.invoke .calm (.deleteService "cart/cart")).2.mgr :=
    ⟨trivial, by decide, rfl⟩
  have hgone : (holdsMarked.invoke .calm (.deleteService "cart/cart")).2.mgr.services =
      Table.empty := by
    -- the event has dropped the service and stored it twice
    have hservices : (holdsMarked.invoke .calm
        (.deleteService "cart/cart")).2.mgr.services =
        ((((Table.empty.set "cart/cart" publishedIdle).erase "cart/cart").set
          "cart/cart" publishedIdle).set "cart/cart" publishedIdle).erase
            "cart/cart" := rfl
    rw [hservices, Table.set_set, Table.erase_set, Table.set_set, Table.set_erase]
    exact Table.erase_of_absent rfl
  refine ⟨_, (((System.reachable_init _).step hfirst).step hslice).step hdelete, hgone, by decide,
    fun hret => ?_⟩
  obtain ⟨k, svc, hk, -⟩ := hret.held 1 (by decide) (by decide)
  rw [hgone] at hk
  exact absurd hk (by simp)

/-! ### The calls of the controller -/

/-- `UpdateService` of objects as `NewService` builds them, and the two deletions. -/
def Call.FreshOrDrop : Call → Prop
  | .updateService svc => svc.serviceId = 0
  | .deleteService _ | .onDeleteEndpointSlice _ => True
  | _ => False

/-- Objects that come without an id leave only `0` marked. -/
theorem BookStep.cache_eq_none {call : Call} (h : BookStep s s' call) (hcall : call.FreshOrDrop)
    (hcache : ∀ id, id ≠ 0 → s.cacheSerivceId id = none) :
    ∀ id, id ≠ 0 → s'.cacheSerivceId id = none := by
  intro id hid
  cases h with
  | updateService svc hnew =>
    rw [hnew.cache, allocate_cache_of_fresh _ hcall hid]
    exact hcache id hid
  | deleteService key hdrop =>
    rw [hdrop.cache]
    exact hcache id hid
  | onDeleteEndpointSlice slice hdrop =>
    rw [hdrop.cache]
    exact hcache id hid
  | unlabelled new _ _ => exact hcall.elim
  | onUpdateEndpointSlice new _ _ _ _ _ => exact hcall.elim

/-- **Without slice updates nothing leaks.** Along every run of updates with new objects and of
deletions, which is all the controller calls. -/
theorem idsReturned_of_fresh {maps : Maps} {tr : List (Transition ServiceManager Invocation)}
    (hrun : Run (returningSystem Call.FreshOrDrop) (newServiceManager maps) tr s) :
    IdsReturned s := by
  have hinv := (hrun.invariant
    (I := fun s => Keyed s.services ∧ ∀ id, id ≠ 0 → s.cacheSerivceId id = none)
    ⟨keyed_empty, fun _ _ => rfl⟩ ?_).1
  · refine idsReturned_iff.mpr fun id hid hmarked => ?_
    rw [hinv.2 id hid] at hmarked
    exact absurd hmarked (by simp)
  · rintro a l b ⟨hk, hcache⟩ hstep
    have hallowed : l.call.NotAppend := by
      have hcall := hstep.1
      cases hl : l.call <;> rw [hl] at hcall <;> first | exact trivial | exact hcall.elim
    have hbooks := bookStep_of_step hk ⟨hallowed, hstep.2⟩
    exact ⟨hstep.2.2 ▸ invoke_keyed _ _ hk, hbooks.cache_eq_none hstep.1 hcache⟩

end EProxy
