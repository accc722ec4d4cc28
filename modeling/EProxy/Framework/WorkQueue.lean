import Mathlib.Data.Finset.Basic

/-!
# Rate-limiting work queues

A worker takes items off a work queue and puts the ones it could not deal with back
through a rate limiter, which counts how often each item has been put back.
`RateLimitingInterface` is the interface of such a queue as its users know it: the
operations, and what each of them does to the counts. `PendingQueue` adds what they do to the
items that will still be taken, now or when a delay has ended.

`WorkQueue` is the queue behind the interface. It holds an item at most once, however
often it is added: an item that is waiting to be taken is `dirty` and is not queued again,
and one added while it is being processed is queued when its processing is done. An item
that was put back waits for its delay to end.
-/

namespace Framework

/-- A queue of items of type `α` that counts how often an item is put back. -/
class RateLimitingInterface (Q : Type) (α : outParam Type) [DecidableEq α] where
  add : Q → α → Q
  /-- The item that is taken and the queue without it, if there is one to take. -/
  get : Q → Option (α × Q)
  done : Q → α → Q
  forget : Q → α → Q
  addRateLimited : Q → α → Q
  numRequeues : Q → α → ℕ
  /-- What the queue does by itself: the delay of an item ends. -/
  Elapses : Q → Q → Prop
  numRequeues_add : ∀ q a b, numRequeues (add q a) b = numRequeues q b
  numRequeues_get : ∀ {q a q'}, get q = some (a, q') → ∀ b, numRequeues q' b = numRequeues q b
  numRequeues_done : ∀ q a b, numRequeues (done q a) b = numRequeues q b
  numRequeues_elapses : ∀ {q q'}, Elapses q q' → ∀ b, numRequeues q' b = numRequeues q b
  numRequeues_forget : ∀ q a b, numRequeues (forget q a) b = if b = a then 0 else numRequeues q b
  numRequeues_addRateLimited : ∀ q a b,
    numRequeues (addRateLimited q a) b = if b = a then numRequeues q b + 1 else numRequeues q b

/-- A queue from which nothing is lost. -/
class PendingQueue (Q : Type) (α : outParam Type) [DecidableEq α] extends
    RateLimitingInterface Q α where
  new : Q
  /-- The item will be taken: it is on the queue, or was added while it was being processed, or
  its delay has not ended yet. -/
  Pending : Q → α → Prop
  pending_new : ∀ a, ¬ Pending new a
  pending_add : ∀ q a b, Pending (add q a) b ↔ b = a ∨ Pending q b
  pending_of_get : ∀ {q a q'}, get q = some (a, q') → Pending q a
  /-- The item that is taken may be pending still, as one that is delayed. -/
  pending_get : ∀ {q a q'}, get q = some (a, q') → ∀ b, b ≠ a → (Pending q' b ↔ Pending q b)
  pending_done : ∀ q a b, Pending (done q a) b ↔ Pending q b
  pending_forget : ∀ q a b, Pending (forget q a) b ↔ Pending q b
  pending_addRateLimited : ∀ q a b, Pending (addRateLimited q a) b ↔ b = a ∨ Pending q b
  pending_elapses : ∀ {q q'}, Elapses q q' → ∀ b, Pending q' b ↔ Pending q b

/-- The queue itself, a set of delayed items and the counts of the rate limiter. -/
structure WorkQueue (α : Type) where
  queue : List α
  dirty : Finset α
  processing : Finset α
  waiting : Finset α
  failures : α → ℕ

namespace WorkQueue

variable {α : Type} [DecidableEq α]

/-- A queue nothing has been added to. -/
def new : WorkQueue α := ⟨[], ∅, ∅, ∅, fun _ => 0⟩

/-- Add an item, unless it is there already; one that is being processed is only noted. -/
def add (q : WorkQueue α) (a : α) : WorkQueue α :=
  if a ∈ q.dirty then q
  else { q with
    dirty := insert a q.dirty
    queue := if a ∈ q.processing then q.queue else q.queue ++ [a] }

/-- Take the first item. -/
def get (q : WorkQueue α) : Option (α × WorkQueue α) :=
  match q.queue with
  | [] => none
  | a :: rest => some (a, { q with
      queue := rest
      dirty := q.dirty.erase a
      processing := insert a q.processing })

/-- The processing of an item has ended; it is queued if it was added meanwhile. -/
def done (q : WorkQueue α) (a : α) : WorkQueue α :=
  { q with
    processing := q.processing.erase a
    queue := if a ∈ q.dirty then q.queue ++ [a] else q.queue }

/-- Forget how often an item was put back. -/
def forget (q : WorkQueue α) (a : α) : WorkQueue α :=
  { q with failures := Function.update q.failures a 0 }

/-- Put an item back, to be added after a delay. -/
def addRateLimited (q : WorkQueue α) (a : α) : WorkQueue α :=
  { q with
    failures := Function.update q.failures a (q.failures a + 1)
    waiting := insert a q.waiting }

/-- The delay of the item has ended. -/
def elapse (q : WorkQueue α) (a : α) : WorkQueue α :=
  ({ q with waiting := q.waiting.erase a } : WorkQueue α).add a

@[simp] theorem failures_add (q : WorkQueue α) (a : α) : (q.add a).failures = q.failures := by
  unfold add
  split <;> rfl

@[simp] theorem failures_elapse (q : WorkQueue α) (a : α) :
    (q.elapse a).failures = q.failures := by
  rw [elapse, failures_add]

theorem get_eq_some {q q' : WorkQueue α} {a : α} (h : q.get = some (a, q')) :
    q.queue = a :: q'.queue ∧ q'.dirty = q.dirty.erase a ∧
      q'.processing = insert a q.processing ∧ q'.waiting = q.waiting ∧
      q'.failures = q.failures := by
  unfold get at h
  cases hq : q.queue with
  | nil => rw [hq] at h; exact absurd h (by simp)
  | cons x rest =>
    rw [hq] at h
    obtain ⟨rfl, rfl⟩ := Prod.mk.inj (Option.some.inj h)
    exact ⟨rfl, rfl, rfl, rfl, rfl⟩

instance : RateLimitingInterface (WorkQueue α) α where
  add := add
  get := get
  done := done
  forget := forget
  addRateLimited := addRateLimited
  numRequeues q a := q.failures a
  Elapses q q' := ∃ a ∈ q.waiting, q' = q.elapse a
  numRequeues_add q a b := by rw [failures_add]
  numRequeues_get h b := congrFun (get_eq_some h).2.2.2.2 b
  numRequeues_done _ _ _ := rfl
  numRequeues_elapses := by
    rintro q q' ⟨a, -, rfl⟩ b
    rw [failures_elapse]
  numRequeues_forget _ _ _ := Function.update_apply ..
  numRequeues_addRateLimited q a b := by
    change Function.update q.failures a (q.failures a + 1) b = _
    rw [Function.update_apply]
    split
    · next hb => rw [hb]
    · rfl

/-! ### What is pending -/

/-- The item is on the queue, or dirty, or delayed. -/
def Pending (q : WorkQueue α) (a : α) : Prop := a ∈ q.queue ∨ a ∈ q.dirty ∨ a ∈ q.waiting

theorem pending_add (q : WorkQueue α) (a b : α) :
    (q.add a).Pending b ↔ b = a ∨ q.Pending b := by
  unfold add
  by_cases ha : a ∈ q.dirty
  · rw [if_pos ha]
    refine ⟨Or.inr, fun hb => hb.elim (fun hba => ?_) id⟩
    rw [hba]
    exact Or.inr (Or.inl ha)
  · rw [if_neg ha]
    by_cases hp : a ∈ q.processing
    · simp only [Pending, if_pos hp, Finset.mem_insert]
      tauto
    · simp only [Pending, if_neg hp, Finset.mem_insert, List.mem_append, List.mem_singleton]
      tauto

theorem pending_get {q q' : WorkQueue α} {a : α} (h : q.get = some (a, q')) {b : α}
    (hb : b ≠ a) : q'.Pending b ↔ q.Pending b := by
  obtain ⟨hqueue, hdirty, -, hwaiting, -⟩ := get_eq_some h
  rw [Pending, Pending, hqueue, hdirty, hwaiting, List.mem_cons, Finset.mem_erase,
    or_iff_right hb, and_iff_right hb]

/-- What was added while the item was processed is on the queue now. -/
theorem pending_done (q : WorkQueue α) (a b : α) : (q.done a).Pending b ↔ q.Pending b := by
  by_cases ha : a ∈ q.dirty
  · have hqueue : (q.done a).queue = q.queue ++ [a] := if_pos ha
    have hb : b = a → b ∈ q.dirty := fun hba => hba ▸ ha
    rw [Pending, Pending, hqueue, List.mem_append, List.mem_singleton]
    show (_ ∨ _) ∨ b ∈ q.dirty ∨ b ∈ q.waiting ↔ _
    tauto
  · have hqueue : (q.done a).queue = q.queue := if_neg ha
    rw [Pending, Pending, hqueue]
    rfl

theorem pending_elapse {q : WorkQueue α} {a : α} (ha : a ∈ q.waiting) (b : α) :
    (q.elapse a).Pending b ↔ q.Pending b := by
  have hb : b = a → b ∈ q.waiting := fun hba => hba ▸ ha
  rw [elapse, pending_add, Pending, Pending, Finset.mem_erase]
  tauto

instance : PendingQueue (WorkQueue α) α where
  new := new
  Pending := Pending
  pending_new a := by simp [Pending, new]
  pending_add := pending_add
  pending_of_get h := by
    refine Or.inl ?_
    rw [(get_eq_some h).1]
    exact List.mem_cons_self
  pending_get h _ hb := pending_get h hb
  pending_done := pending_done
  pending_forget _ _ _ := Iff.rfl
  pending_addRateLimited q a b := by
    show b ∈ q.queue ∨ b ∈ q.dirty ∨ b ∈ insert a q.waiting ↔
      b = a ∨ b ∈ q.queue ∨ b ∈ q.dirty ∨ b ∈ q.waiting
    rw [Finset.mem_insert]
    tauto
  pending_elapses := by
    rintro q q' ⟨a, ha, rfl⟩
    exact pending_elapse ha

/-! ### Between two handlings -/

/-- Nothing is being processed and no delay is running; the items to take are the dirty
ones, each of them once. -/
structure Settled (q : WorkQueue α) : Prop where
  nodup : q.queue.Nodup
  dirty : ∀ a, a ∈ q.dirty ↔ a ∈ q.queue
  processing : q.processing = ∅
  waiting : q.waiting = ∅

variable {q q₁ : WorkQueue α} {a : α}

theorem Settled.mem_add (h : q.Settled) (b : α) :
    b ∈ (q.add a).queue ↔ b = a ∨ b ∈ q.queue := by
  unfold add
  by_cases ha : a ∈ q.dirty
  · rw [if_pos ha]
    refine ⟨Or.inr, fun hb => hb.elim (fun hba => ?_) id⟩
    rw [hba]
    exact (h.dirty a).mp ha
  · rw [if_neg ha, h.processing]
    simp [or_comm]

theorem Settled.add (h : q.Settled) (a : α) : (q.add a).Settled := by
  unfold WorkQueue.add
  by_cases ha : a ∈ q.dirty
  · rw [if_pos ha]
    exact h
  · rw [if_neg ha, h.processing]
    have hnot : a ∉ q.queue := fun hmem => ha ((h.dirty a).mpr hmem)
    refine ⟨?_, fun b => ?_, rfl, h.waiting⟩
    · simp only [Finset.notMem_empty, if_false]
      exact List.nodup_append.mpr ⟨h.nodup, List.nodup_singleton a, by
        rintro x hx y hy rfl
        exact hnot (List.mem_singleton.mp hy ▸ hx)⟩
    · simp [h.dirty, or_comm]

/-- The queue after an item has been taken and is done with. -/
theorem Settled.done (h : q.Settled) (hget : q.get = some (a, q₁)) :
    (q₁.done a).Settled ∧ ∀ b, b ∈ (q₁.done a).queue ↔ b ≠ a ∧ b ∈ q.queue := by
  obtain ⟨hqueue, hdirty, hprocessing, hwaiting, -⟩ := get_eq_some hget
  obtain ⟨hnot, hnodup⟩ := List.nodup_cons.mp (hqueue ▸ h.nodup)
  -- taken and not added since, the item is not queued again
  have hclean : a ∉ q₁.dirty := by
    rw [hdirty]
    exact Finset.notMem_erase a q.dirty
  have hdone : (q₁.done a).queue = q₁.queue := if_neg hclean
  have hmem : ∀ b, b ∈ q₁.queue ↔ b ≠ a ∧ b ∈ q.queue := by
    intro b
    rw [hqueue, List.mem_cons]
    constructor
    · intro hb
      exact ⟨fun hba => hnot (hba ▸ hb), Or.inr hb⟩
    · rintro ⟨hne, hb⟩
      exact hb.resolve_left hne
  refine ⟨⟨hdone ▸ hnodup, fun b => ?_, ?_, hwaiting.trans h.waiting⟩, fun b => hdone ▸ hmem b⟩
  · change b ∈ q₁.dirty ↔ b ∈ (q₁.done a).queue
    rw [hdone, hmem, hdirty, Finset.mem_erase, h.dirty]
  · change q₁.processing.erase a = ∅
    rw [hprocessing, h.processing]
    simp

/-- An item that is put back and whose delay ends is an item that is added. -/
theorem Settled.retry (h : q.Settled) (a : α) :
    ((q.addRateLimited a).elapse a).Settled ∧
      ∀ b, b ∈ ((q.addRateLimited a).elapse a).queue ↔ b = a ∨ b ∈ q.queue := by
  have hwaiting : (insert a q.waiting).erase a = ∅ := by
    rw [h.waiting]
    simp
  have hback : ({ q.addRateLimited a with waiting := (insert a q.waiting).erase a } :
      WorkQueue α).Settled := ⟨h.nodup, h.dirty, h.processing, hwaiting⟩
  exact ⟨hback.add a, fun b => hback.mem_add b⟩

end WorkQueue

end Framework
