import Mathlib.Data.List.Dedup
import Mathlib.Data.List.Perm.Subperm
import EProxy.Framework.Table

/-!
# Queues of changes, by key

A queue between somebody who hears of changes and somebody who carries them out. The changes of
a key that are not carried out yet are kept together in their order, and taking a key takes all
its changes. Those who hear of changes hear of all keys at once every now and then, and the queue
tells when the keys of the first such list have been taken.

`DeltaQueue` is the interface of such a queue as its users know it: the operations, and what they
do to the changes that wait (`items`) and to the keys of the first list that have not been taken
(`Owed`). Two changes in a row after which there is nothing may be merged. A list of all keys
brings a change for each key that is listed, and one for each key that is known to whoever
carries the changes out and is not listed (`unlisted`); keys that only wait on the queue are not
looked at.

`ChangeQueue` is a queue behind the interface. The keys wait in the order of their first change,
and those of the first list are counted down.
-/

namespace Framework

/-! ### The interface -/

/-- A kind of change. After some of them there is nothing under the key. -/
class Change (δ : Type) where
  gone : δ → Bool

/-- What a list of all keys says of those that are known and not listed. -/
def unlisted {K δ : Type} [DecidableEq K] (listed : List (K × δ)) (known : List K)
    (gone : K → δ) : List (K × δ) :=
  (known.filter (· ∉ listed.map Prod.fst)).map fun k => (k, gone k)

/-- **A queue of changes** of type `δ`, by keys of type `K`. -/
class DeltaQueue (F : Type) (K δ : outParam Type) [DecidableEq K] [Change δ] where
  new : F
  /-- A change of a key is heard of. -/
  add : F → K → δ → F
  /-- A key is gone, which is known or not. -/
  delete : F → (known : Bool) → K → δ → F
  /-- All keys there are, with those that are known. -/
  replace : F → (listed : List (K × δ)) → (known : List K) → (gone : K → δ) → F
  /-- A key is taken with all its changes, if there is one. -/
  pop : F → Option (K × F)
  hasSynced : F → Bool
  /-- The changes of a key that have not been taken, in their order. -/
  items : F → K → List δ
  /-- Something has been heard. -/
  populated : F → Bool
  /-- The key is of the first list and has not been taken since. -/
  Owed : F → K → Prop
  items_new : ∀ k, items new k = []
  items_add_sublist : ∀ f k d, (items (add f k d) k).Sublist (items f k ++ [d])
  items_add_last : ∀ f k d, ∃ x, (items (add f k d) k).getLast? = some x ∧
    (x = d ∨ Change.gone x = true ∧ Change.gone d = true)
  items_add_of_ne : ∀ f {k k'} d, k' ≠ k → items (add f k d) k' = items f k'
  /-- A deletion of a key that is neither known nor waiting is dropped. -/
  items_delete : ∀ f known k d, items (delete f known k d) =
    if known || !(items f k).isEmpty then items (add f k d) else items f
  items_replace : ∀ f listed known gone, items (replace f listed known gone) =
    items ((listed ++ unlisted listed known gone).foldl (fun f c => add f c.1 c.2) f)
  items_ne_nil_of_pop : ∀ {f k f'}, pop f = some (k, f') → items f k ≠ []
  items_pop : ∀ {f k f'}, pop f = some (k, f') → items f' = Function.update (items f) k []
  items_of_pop_none : ∀ {f}, pop f = none → ∀ k, items f k = []
  populated_new : populated new = false
  populated_pop : ∀ {f k f'}, pop f = some (k, f') → populated f' = populated f
  owed_first : ∀ {f} {listed : List (K × δ)} {known gone k}, populated f = false →
    k ∈ listed.map Prod.fst → Owed (replace f listed known gone) k
  owed_add : ∀ {f k} k' d, Owed f k → Owed (add f k' d) k
  owed_delete : ∀ {f k} known k' d, Owed f k → Owed (delete f known k' d) k
  owed_replace : ∀ {f k} listed known gone, Owed f k → Owed (replace f listed known gone) k
  owed_pop : ∀ {f k k' f'}, Owed f k → pop f = some (k', f') → k ≠ k' → Owed f' k
  not_owed : ∀ {f}, hasSynced f = true → ∀ k, ¬ Owed f k
  populated_of_hasSynced : ∀ {f}, hasSynced f = true → populated f = true
  hasSynced_add : ∀ {f} k d, hasSynced f = true → hasSynced (add f k d) = true
  hasSynced_delete : ∀ {f} known k d, hasSynced f = true → hasSynced (delete f known k d) = true
  hasSynced_replace : ∀ {f} listed known gone, hasSynced f = true →
    hasSynced (replace f listed known gone) = true
  hasSynced_pop : ∀ {f k f'}, hasSynced f = true → pop f = some (k, f') → hasSynced f' = true

namespace DeltaQueue

variable {F K δ : Type} [DecidableEq K] [Change δ] [DeltaQueue F K δ] {f : F} {k k' : K} {d d' : δ}

/-- Many changes are heard of, one after the other. -/
def addAll (f : F) (changes : List (K × δ)) : F := changes.foldl (fun f c => add f c.1 c.2) f

theorem addAll_append (f : F) (changes changes' : List (K × δ)) :
    addAll f (changes ++ changes') = addAll (addAll f changes) changes' :=
  List.foldl_append

theorem mem_items_add (hd : d' ∈ items (add f k d) k') :
    d' ∈ items f k' ∨ (k', d') = (k, d) := by
  by_cases hk : k' = k
  · subst hk
    refine (List.mem_append.mp ((items_add_sublist f k' d).subset hd)).imp id fun hd => ?_
    rw [List.mem_singleton.mp hd]
  · rw [items_add_of_ne f d hk] at hd
    exact Or.inl hd

theorem mem_items_addAll {changes : List (K × δ)} (hd : d' ∈ items (addAll f changes) k') :
    d' ∈ items f k' ∨ (k', d') ∈ changes := by
  induction changes generalizing f with
  | nil => exact Or.inl hd
  | cons c changes ih =>
    rcases ih hd with hd | hd
    · refine (mem_items_add hd).imp id fun hd => ?_
      rw [hd]
      exact List.mem_cons_self
    · exact Or.inr (List.mem_cons_of_mem _ hd)

theorem mem_items_replace {listed : List (K × δ)} {known : List K} {gone : K → δ}
    (hd : d' ∈ items (replace f listed known gone) k') :
    d' ∈ items f k' ∨ (k', d') ∈ listed ∨ k' ∉ listed.map Prod.fst := by
  rw [items_replace] at hd
  rcases mem_items_addAll hd with hd | hd
  · exact Or.inl hd
  · refine Or.inr ((List.mem_append.mp hd).imp id fun hd => ?_)
    obtain ⟨k, hk, heq⟩ := List.mem_map.mp hd
    obtain ⟨rfl, -⟩ := Prod.ext_iff.mp heq
    exact of_decide_eq_true (List.mem_filter.mp hk).2

theorem mem_items_pop {f' : F} (hpop : pop f = some (k, f')) (hd : d' ∈ items f' k') :
    k' ≠ k ∧ d' ∈ items f k' := by
  rw [items_pop hpop] at hd
  by_cases hk : k' = k
  · rw [hk, Function.update_self] at hd
    exact absurd hd List.not_mem_nil
  · rw [Function.update_of_ne hk] at hd
    exact ⟨hk, hd⟩

end DeltaQueue

/-! ### A queue -/

/-- Changes by key, and the keys that have any in the order of the first one. -/
structure ChangeQueue (K δ : Type) where
  items : K → List δ
  queue : List K
  populated : Bool
  /-- How many keys of the first list are still to be taken. -/
  initialPopulationCount : ℕ
  nodup : queue.Nodup
  mem_queue : ∀ {k}, k ∈ queue ↔ items k ≠ []
  idle : populated = false → queue = []

namespace ChangeQueue

variable {K δ : Type}

/-- The queue before anything has been heard. -/
def empty : ChangeQueue K δ where
  items _ := []
  queue := []
  populated := false
  initialPopulationCount := 0
  nodup := List.nodup_nil
  mem_queue := by simp
  idle _ := rfl

/-- The first list has been worked off. -/
def hasSynced (f : ChangeQueue K δ) : Bool := f.populated && f.initialPopulationCount == 0

theorem hasSynced_iff {f : ChangeQueue K δ} :
    f.hasSynced = true ↔ f.populated = true ∧ f.initialPopulationCount = 0 := by
  rw [hasSynced, Bool.and_eq_true, beq_iff_eq]

/-- One more change of a key; of two in a row after which there is nothing the last is kept. -/
def push [Change δ] (ds : List δ) (d : δ) : List δ :=
  if ds.getLast?.any Change.gone && Change.gone d then ds.dropLast ++ [d] else ds ++ [d]

theorem push_sublist [Change δ] (ds : List δ) (d : δ) : (push ds d).Sublist (ds ++ [d]) := by
  rw [push]
  split
  · exact (List.dropLast_sublist ds).append_right _
  · exact List.Sublist.refl _

theorem getLast?_push [Change δ] (ds : List δ) (d : δ) : (push ds d).getLast? = some d := by
  rw [push]
  split
  · exact List.getLast?_concat
  · exact List.getLast?_concat

theorem push_ne_nil [Change δ] (ds : List δ) (d : δ) : push ds d ≠ [] := by
  intro hnil
  have hlast := getLast?_push ds d
  rw [hnil] at hlast
  exact absurd hlast (by simp)

variable [DecidableEq K]

/-- The queue without its first key. -/
def rest (f : ChangeQueue K δ) (first : K) (keys : List K) (hq : f.queue = first :: keys) :
    ChangeQueue K δ where
  items := Function.update f.items first []
  queue := keys
  populated := f.populated
  initialPopulationCount := f.initialPopulationCount - 1
  nodup := (List.nodup_cons.mp (hq ▸ f.nodup)).2
  mem_queue := by
    intro k
    have hmem := f.mem_queue (k := k)
    rw [hq, List.mem_cons] at hmem
    have hnot := (List.nodup_cons.mp (hq ▸ f.nodup)).1
    by_cases hk : k = first
    · subst hk
      rw [Function.update_self]
      exact iff_of_false hnot fun hne => hne rfl
    · rw [Function.update_of_ne hk, ← hmem, or_iff_right hk]
  idle hp := absurd (hq.symm.trans (f.idle hp)) (List.cons_ne_nil _ _)

/-- The first key is taken. -/
def pop (f : ChangeQueue K δ) : Option (K × ChangeQueue K δ) :=
  match hq : f.queue with
  | [] => none
  | first :: keys => some (first, f.rest first keys hq)

theorem pop_eq_some {f f' : ChangeQueue K δ} {k : K} (hpop : f.pop = some (k, f')) :
    ∃ keys hq, f' = f.rest k keys hq := by
  rw [pop] at hpop
  split at hpop
  · exact absurd hpop (by simp)
  · next first keys hq =>
    obtain ⟨rfl, rfl⟩ := Prod.ext_iff.mp (Option.some.inj hpop)
    exact ⟨keys, hq, rfl⟩

theorem queue_of_pop_none {f : ChangeQueue K δ} (hpop : f.pop = none) : f.queue = [] := by
  rw [pop] at hpop
  split at hpop
  · next hq => exact hq
  · exact absurd hpop (by simp)

variable [Change δ]

/-- A change of a key is heard of. -/
def queueAction (f : ChangeQueue K δ) (k : K) (d : δ) : ChangeQueue K δ where
  items := Function.update f.items k (push (f.items k) d)
  queue := if f.items k = [] then f.queue ++ [k] else f.queue
  populated := true
  initialPopulationCount := f.initialPopulationCount
  nodup := by
    split
    · next hnil =>
      have hk : k ∉ f.queue := fun hmem => f.mem_queue.mp hmem hnil
      exact List.nodup_append.mpr
        ⟨f.nodup, List.nodup_singleton k, fun a ha b hb => by
          rintro rfl
          exact hk (List.mem_singleton.mp hb ▸ ha)⟩
    · exact f.nodup
  mem_queue := by
    intro k'
    by_cases hk : k' = k
    · subst hk
      rw [Function.update_self]
      refine iff_of_true ?_ (push_ne_nil _ _)
      split
      · exact List.mem_append_right _ (List.mem_singleton_self _)
      · next hne => exact f.mem_queue.mpr hne
    · rw [Function.update_of_ne hk, ← f.mem_queue]
      split
      · rw [List.mem_append, List.mem_singleton, or_iff_left hk]
      · rfl
  idle := by simp

/-- Many changes are heard of, one after the other. -/
def pushAll (f : ChangeQueue K δ) (changes : List (K × δ)) : ChangeQueue K δ :=
  changes.foldl (fun f c => f.queueAction c.1 c.2) f

/-- A key is gone: there is something to be done if it is known, or waiting. -/
def delete (f : ChangeQueue K δ) (known : Bool) (k : K) (d : δ) : ChangeQueue K δ :=
  if known || !(f.items k).isEmpty then f.queueAction k d
  else { f with populated := true, idle := by simp }

/-- All keys there are. The first time, all keys with a change are counted. -/
def replace (f : ChangeQueue K δ) (listed : List (K × δ)) (known : List K) (gone : K → δ) :
    ChangeQueue K δ :=
  { f.pushAll (listed ++ unlisted listed known gone) with
    populated := true
    initialPopulationCount :=
      if f.populated then f.initialPopulationCount
      else (listed.map Prod.fst).dedup.length + (unlisted listed known gone).length
    idle := by simp }

/-! The first list is counted. -/

/-- The key is among those that are counted. -/
def Counted (f : ChangeQueue K δ) (k : K) : Prop :=
  f.populated = true ∧ k ∈ f.queue.take f.initialPopulationCount

section Counting

variable {f f' : ChangeQueue K δ} {k k' : K} {d : δ} {changes listed : List (K × δ)}
  {known : List K} {gone : K → δ}

theorem mem_take_queueAction {n : ℕ} (hk : k' ∈ f.queue.take n) :
    k' ∈ (f.queueAction k d).queue.take n := by
  show k' ∈ (if f.items k = [] then f.queue ++ [k] else f.queue).take n
  split
  · rw [List.take_append]
    exact List.mem_append_left _ hk
  · exact hk

theorem mem_take_pushAll {n : ℕ} (hk : k' ∈ f.queue.take n) :
    k' ∈ (f.pushAll changes).queue.take n := by
  induction changes generalizing f with
  | nil => exact hk
  | cons c changes ih => exact ih (mem_take_queueAction hk)

theorem mem_queue_pushAll (hk : k ∈ changes.map Prod.fst) : k ∈ (f.pushAll changes).queue := by
  induction changes generalizing f with
  | nil => exact absurd hk List.not_mem_nil
  | cons c changes ih =>
    by_cases hmem : k ∈ changes.map Prod.fst
    · exact ih hmem
    · obtain rfl : k = c.1 := (List.mem_cons.mp hk).resolve_right hmem
      have hfirst : c.1 ∈ (f.queueAction c.1 c.2).queue.take
          (f.queueAction c.1 c.2).queue.length := by
        rw [List.take_length, mem_queue]
        show Function.update f.items c.1 _ c.1 ≠ []
        rw [Function.update_self]
        exact push_ne_nil _ _
      have hkept : c.1 ∈ ((f.queueAction c.1 c.2).pushAll changes).queue.take _ :=
        mem_take_pushAll hfirst
      exact List.mem_of_mem_take hkept

theorem queue_pushAll_subset :
    (f.pushAll changes).queue ⊆ f.queue ++ changes.map Prod.fst := by
  induction changes generalizing f with
  | nil => exact List.subset_append_left _ _
  | cons c changes ih =>
    intro k hk
    rcases List.mem_append.mp (ih hk) with hk | hk
    · have hq : k ∈ if f.items c.1 = [] then f.queue ++ [c.1] else f.queue := hk
      split at hq
      · rw [List.map_cons, List.append_cons]
        exact List.mem_append_left _ hq
      · exact List.mem_append_left _ hq
    · exact List.mem_append_right _ (List.mem_cons_of_mem _ hk)

/-- All keys of the first list are counted. -/
theorem counted_first (hnew : f.populated = false) (hk : k ∈ listed.map Prod.fst) :
    (f.replace listed known gone).Counted k := by
  let missing := unlisted listed known gone
  have hcount : (f.replace listed known gone).initialPopulationCount =
      (listed.map Prod.fst).dedup.length + (missing.map Prod.fst).length := by
    rw [List.length_map]
    exact if_neg (by simp [hnew])
  -- there are no other keys on the queue than those that are counted
  have hsub : (f.pushAll (listed ++ missing)).queue ⊆
      (listed.map Prod.fst).dedup ++ missing.map Prod.fst := by
    intro k hk
    have hk := queue_pushAll_subset hk
    rw [f.idle hnew, List.nil_append, List.map_append] at hk
    rcases List.mem_append.mp hk with hk | hk
    · exact List.mem_append_left _ (List.mem_dedup.mpr hk)
    · exact List.mem_append_right _ hk
  have hlen := (List.subperm_of_subset (f.pushAll (listed ++ missing)).nodup hsub).length_le
  rw [List.length_append] at hlen
  refine ⟨rfl, ?_⟩
  show k ∈ (f.pushAll (listed ++ missing)).queue.take _
  rw [hcount, List.take_of_length_le hlen]
  refine mem_queue_pushAll ?_
  rw [List.map_append]
  exact List.mem_append_left _ hk

theorem Counted.queueAction (h : f.Counted k) : (f.queueAction k' d).Counted k :=
  ⟨rfl, mem_take_queueAction h.2⟩

theorem Counted.delete {isKnown : Bool} (h : f.Counted k) : (f.delete isKnown k' d).Counted k := by
  rw [ChangeQueue.delete]
  split
  · exact h.queueAction
  · exact ⟨rfl, h.2⟩

theorem Counted.replace (h : f.Counted k) : (f.replace listed known gone).Counted k := by
  refine ⟨rfl, ?_⟩
  have hcount : (f.replace listed known gone).initialPopulationCount =
      f.initialPopulationCount := if_pos h.1
  rw [hcount]
  exact mem_take_pushAll h.2

omit [Change δ] in
/-- A key that is counted stays so until it is taken. -/
theorem Counted.pop (h : f.Counted k) (hpop : f.pop = some (k', f')) (hk : k ≠ k') :
    f'.Counted k := by
  obtain ⟨keys, hq, rfl⟩ := pop_eq_some hpop
  refine ⟨h.1, ?_⟩
  have hmem := h.2
  show k ∈ keys.take (f.initialPopulationCount - 1)
  rw [hq] at hmem
  -- the key was not the first one, so it has moved up by one as the count has gone down
  cases hn : f.initialPopulationCount with
  | zero =>
    rw [hn] at hmem
    exact absurd hmem (by simp)
  | succ n =>
    rw [hn, List.take_succ_cons, List.mem_cons] at hmem
    exact hmem.resolve_left hk

end Counting

instance : DeltaQueue (ChangeQueue K δ) K δ where
  new := empty
  add := queueAction
  delete := delete
  replace := replace
  pop := pop
  hasSynced := hasSynced
  items := items
  populated := populated
  Owed := Counted
  items_new _ := rfl
  items_add_sublist f k d := by
    show (Function.update f.items k _ k).Sublist _
    rw [Function.update_self]
    exact push_sublist _ _
  items_add_last f k d := by
    refine ⟨d, ?_, Or.inl rfl⟩
    show (Function.update f.items k _ k).getLast? = some d
    rw [Function.update_self]
    exact getLast?_push _ _
  items_add_of_ne f _ _ _ hk := Function.update_of_ne hk _ _
  items_delete f known k d := by
    rw [delete]
    split
    · rfl
    · rfl
  items_replace _ _ _ _ := rfl
  items_ne_nil_of_pop {f k f'} hpop := by
    obtain ⟨keys, hq, -⟩ := pop_eq_some hpop
    rw [← f.mem_queue, hq]
    exact List.mem_cons_self
  items_pop hpop := by
    obtain ⟨keys, hq, rfl⟩ := pop_eq_some hpop
    rfl
  items_of_pop_none {f} hpop k := by
    by_contra hne
    have hmem := f.mem_queue.mpr hne
    rw [queue_of_pop_none hpop] at hmem
    exact List.not_mem_nil hmem
  populated_new := rfl
  populated_pop hpop := by
    obtain ⟨keys, hq, rfl⟩ := pop_eq_some hpop
    rfl
  owed_first := counted_first
  owed_add _ _ h := h.queueAction
  owed_delete _ _ _ h := h.delete
  owed_replace _ _ _ h := h.replace
  owed_pop := Counted.pop
  not_owed hsynced k h := by
    have hmem := h.2
    rw [(hasSynced_iff.mp hsynced).2, List.take_zero] at hmem
    exact List.not_mem_nil hmem
  populated_of_hasSynced hsynced := (hasSynced_iff.mp hsynced).1
  hasSynced_add _ _ hsynced := hasSynced_iff.mpr ⟨rfl, (hasSynced_iff.mp hsynced).2⟩
  hasSynced_delete {f} known k d hsynced := by
    refine hasSynced_iff.mpr ?_
    rw [delete]
    split
    · exact ⟨rfl, (hasSynced_iff.mp hsynced).2⟩
    · exact ⟨rfl, (hasSynced_iff.mp hsynced).2⟩
  hasSynced_replace _ _ _ hsynced := by
    obtain ⟨hpop, hcount⟩ := hasSynced_iff.mp hsynced
    exact hasSynced_iff.mpr ⟨rfl, (if_pos hpop).trans hcount⟩
  hasSynced_pop hsynced hpop := by
    obtain ⟨keys, hq, rfl⟩ := pop_eq_some hpop
    obtain ⟨hpopulated, hcount⟩ := hasSynced_iff.mp hsynced
    refine hasSynced_iff.mpr ⟨hpopulated, ?_⟩
    show _ - 1 = 0
    rw [hcount]

end ChangeQueue

end Framework
