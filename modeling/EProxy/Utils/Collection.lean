import Mathlib.Data.Finset.Basic
import Mathlib.Data.Finset.Card
import EProxy.Utils.Set

/-!
# `pkg/utils/set`: the set as a collection

The rest of the methods of `Typed`. Some loop over the underlying map, some hand a visitor to
`Iter`, whose captured variable is then the state of the visitor; all of them depend on the
order of the loop, and none of them should. `typed_refines_finset` says that they do not: for
every sequence of operations, in every order of every loop, a `Typed` behaves as the finite set
of its members.
-/

namespace EProxy

open Framework

namespace Typed

variable {T : Type}

/-- The finite set a `Typed` stands for. -/
def toFinset (set : Typed T) : Finset T := ⟨set.items, set.nodup⟩

/-- `Len`. -/
def len (set : Typed T) : ℕ := set.items.length

/-- `Slice`. -/
def slice (set : Typed T) (order : IterOrder T) : List T := order.visit set.items

/-- `Clear`. -/
def clear (_ : Typed T) : Typed T := ⟨[], List.nodup_nil⟩

variable [DecidableEq T]

/-- `Contains`. -/
def contains (set : Typed T) (item : T) : Bool := decide (item ∈ set.items)

/-- `AddAll`. -/
def addAll (set : Typed T) (itemArray : List T) : Typed T := itemArray.foldl add set

/-- `From` and `FromArray`. -/
def fromArray (members : List T) : Typed T := new.addAll members

/-- `AddSet`: the visitor adds to the set it captures. -/
def addSet (set : Typed T) (order : IterOrder T) (other : Typed T) : Typed T :=
  ((other.iter order fun item => do
    Go.modify (·.add item)
    pure none : Go (Typed T) Empty (Typed T)).run set).2

/-- `Copy`. -/
def copy (set : Typed T) (order : IterOrder T) : Typed T := (order.visit set.items).foldl add new

/-- `Equals`. -/
def equals (set : Typed T) (order : IterOrder T) (other : Typed T) : Bool :=
  if set.len ≠ other.len then false
  else (order.visit set.items).all other.contains

/-- `ContainsAll`: the visitor assigns to `result`. -/
def containsAll (set : Typed T) (order : IterOrder T) (other : Typed T) : Bool :=
  ((other.iter order fun item =>
    if set.contains item then pure none
    else do
      Go.modify fun _ => false
      pure (some .stopIteration) : Go Bool Empty (Typed T)).run true).2

/-- `Iter` with a visitor that returns `RemoveItem` for the items `p` tells. -/
def iterRemove (set : Typed T) (order : IterOrder T) (p : T → Bool) : Typed T :=
  match ((set.iter order fun item => pure (if p item then some .removeItem else none) :
    Go Unit Empty (Typed T)).run ()).1 with
  | .ret set' => set'
  | .panic _ => set

/-! ### What the operations do to the finite set -/

omit [DecidableEq T] in
@[simp] theorem mem_toFinset (set : Typed T) (x : T) : x ∈ set.toFinset ↔ x ∈ set.items := Iff.rfl

theorem toFinset_add (set : Typed T) (item : T) :
    (set.add item).toFinset = insert item set.toFinset := by
  ext x
  simp [mem_add]

theorem toFinset_discard (set : Typed T) (item : T) :
    (set.discard item).toFinset = set.toFinset.erase item := by
  ext x
  simp [mem_discard]

theorem toFinset_addAll (set : Typed T) (itemArray : List T) :
    (set.addAll itemArray).toFinset = set.toFinset ∪ itemArray.toFinset := by
  rw [addAll]
  induction itemArray generalizing set with
  | nil => simp
  | cons item rest ih =>
    rw [List.foldl_cons, ih, toFinset_add, List.toFinset_cons, Finset.insert_union,
      Finset.union_insert]

theorem toFinset_visit (set : Typed T) (order : IterOrder T) :
    (order.visit set.items).toFinset = set.toFinset := by
  ext x
  rw [List.mem_toFinset, (order.perm set.items).mem_iff, mem_toFinset]

/-- The visitor of `AddSet` adds what it visits. -/
theorem addSet_eq (set : Typed T) (order : IterOrder T) (other : Typed T) :
    set.addSet order other = set.addAll (order.visit other.items) := by
  rw [addSet, iter, addAll]
  induction order.visit other.items generalizing set with
  | nil => rfl
  | cons item rest ih => exact ih (set.add item)

theorem toFinset_copy (set : Typed T) (order : IterOrder T) :
    (set.copy order).toFinset = set.toFinset := by
  have h := toFinset_addAll new (order.visit set.items)
  rw [toFinset_visit] at h
  exact h.trans (Finset.empty_union _)

/-- The loop of `Iter` with a visitor that removes some of the items. -/
theorem iterFrom_remove (p : T → Bool) (items : List T) (set : Typed T) :
    ((iterFrom (fun item => pure (if p item then some .removeItem else none)) items set :
      Go Unit Empty (Typed T)).run ()).1 =
        .ret (items.foldl (fun s item => if p item then s.discard item else s) set) := by
  induction items generalizing set with
  | nil => rfl
  | cons item rest ih =>
    rw [List.foldl_cons, ← ih]
    cases hp : p item with
    | true => simp only [iterFrom, hp, if_true]; rfl
    | false => simp only [iterFrom, hp, Bool.false_eq_true, if_false]; rfl

theorem mem_foldl_discard (p : T → Bool) (items : List T) (set : Typed T) (x : T) :
    x ∈ (items.foldl (fun s item => if p item then s.discard item else s) set).items ↔
      x ∈ set.items ∧ ¬ (x ∈ items ∧ p x) := by
  induction items generalizing set with
  | nil => simp
  | cons item rest ih =>
    rw [List.foldl_cons, ih, List.mem_cons]
    by_cases hp : p item
    · rw [if_pos hp, mem_discard]
      by_cases hx : x = item
      · simp [hx, hp]
      · simp [hx]
    · rw [if_neg hp]
      by_cases hx : x = item
      · simp [hx, hp]
      · simp [hx]

theorem toFinset_iterRemove (set : Typed T) (order : IterOrder T) (p : T → Bool) :
    (set.iterRemove order p).toFinset = set.toFinset.filter fun x => ¬ p x := by
  rw [iterRemove, iter, iterFrom_remove]
  ext x
  simp only [mem_toFinset, mem_foldl_discard, Finset.mem_filter, (order.perm set.items).mem_iff]
  tauto

/-! ### What the observers see -/

omit [DecidableEq T] in
theorem len_eq_card (set : Typed T) : set.len = set.toFinset.card := rfl

theorem contains_eq (set : Typed T) (x : T) : set.contains x = decide (x ∈ set.toFinset) := rfl

/-- A count and an inclusion decide equality. -/
theorem equals_iff (set : Typed T) (order : IterOrder T) (other : Typed T) :
    set.equals order other ↔ set.toFinset = other.toFinset := by
  unfold equals
  split
  · next hlen =>
    refine iff_of_false Bool.false_ne_true fun heq => hlen ?_
    rw [len_eq_card, len_eq_card, heq]
  · next hlen =>
    rw [not_not] at hlen
    have hall : (order.visit set.items).all other.contains ↔ set.toFinset ⊆ other.toFinset := by
      simp [List.all_eq_true, contains, Finset.subset_iff, (order.perm set.items).mem_iff]
    rw [hall]
    exact ⟨fun hsub => Finset.eq_of_subset_of_card_le hsub (Nat.le_of_eq hlen.symm),
      fun heq => heq.subset⟩

theorem containsAll_iff (set : Typed T) (order : IterOrder T) (other : Typed T) :
    set.containsAll order other ↔ other.toFinset ⊆ set.toFinset := by
  have hsub : other.toFinset ⊆ set.toFinset ↔ ∀ x ∈ order.visit other.items, x ∈ set.items := by
    simp [Finset.subset_iff, (order.perm other.items).mem_iff]
  rw [hsub, containsAll, iter]
  induction order.visit other.items with
  | nil => exact iff_of_true rfl (by simp)
  | cons item rest ih =>
    rw [List.forall_mem_cons, iterFrom]
    by_cases hin : item ∈ set.items
    · simp only [contains, hin, decide_true, if_true, true_and]
      exact ih
    · simp only [contains, hin, decide_false, Bool.false_eq_true, if_false, false_and]
      exact iff_of_false Bool.false_ne_true id

end Typed

/-! ### Sequences of operations -/

/-- An operation that changes a set. -/
inductive SetOp (T : Type) where
  | add (item : T)
  | addAll (itemArray : List T)
  | addSet (order : IterOrder T) (other : Typed T)
  | discard (item : T)
  | clear
  | copy (order : IterOrder T)
  | iterRemove (order : IterOrder T) (p : T → Bool)

variable {T : Type} [DecidableEq T]

/-- What the operation does to the set. -/
def SetOp.apply (set : Typed T) : SetOp T → Typed T
  | .add item => set.add item
  | .addAll itemArray => set.addAll itemArray
  | .addSet order other => set.addSet order other
  | .discard item => set.discard item
  | .clear => set.clear
  | .copy order => set.copy order
  | .iterRemove order p => set.iterRemove order p

/-- What it is for, in terms of finite sets. -/
def SetOp.denote (s : Finset T) : SetOp T → Finset T
  | .add item => insert item s
  | .addAll itemArray => s ∪ itemArray.toFinset
  | .addSet _ other => s ∪ other.toFinset
  | .discard item => s.erase item
  | .clear => ∅
  | .copy _ => s
  | .iterRemove _ p => s.filter fun x => ¬ p x

/-- One operation. -/
theorem SetOp.toFinset_apply (set : Typed T) (op : SetOp T) :
    (op.apply set).toFinset = op.denote set.toFinset := by
  cases op with
  | add item => exact set.toFinset_add item
  | addAll itemArray => exact set.toFinset_addAll itemArray
  | addSet order other =>
    rw [SetOp.apply, Typed.addSet_eq, Typed.toFinset_addAll, Typed.toFinset_visit]
    rfl
  | discard item => exact set.toFinset_discard item
  | clear => rfl
  | copy order => exact set.toFinset_copy order
  | iterRemove order p => exact set.toFinset_iterRemove order p

theorem SetOp.toFinset_foldl (set : Typed T) (ops : List (SetOp T)) :
    (ops.foldl SetOp.apply set).toFinset = ops.foldl SetOp.denote set.toFinset := by
  induction ops generalizing set with
  | nil => rfl
  | cons op ops ih => rw [List.foldl_cons, List.foldl_cons, ih, op.toFinset_apply]

/-- **A `Typed` is a finite set.** For every set, every sequence of operations on it and every
order of every loop they run: the observers answer as for the finite set the operations make
of the members. `Len` is its cardinality, `Contains` membership, `Slice` lists the members once
each, and `Equals` and `ContainsAll` are equality and inclusion. -/
theorem typed_refines_finset (set : Typed T) (ops : List (SetOp T)) (order : IterOrder T)
    (other : Typed T) :
    (ops.foldl SetOp.apply set).len = (ops.foldl SetOp.denote set.toFinset).card ∧
      (∀ x, (ops.foldl SetOp.apply set).contains x ↔ x ∈ ops.foldl SetOp.denote set.toFinset) ∧
      (((ops.foldl SetOp.apply set).slice order).Nodup ∧
        ((ops.foldl SetOp.apply set).slice order).toFinset =
          ops.foldl SetOp.denote set.toFinset) ∧
      ((ops.foldl SetOp.apply set).equals order other ↔
        ops.foldl SetOp.denote set.toFinset = other.toFinset) ∧
      ((ops.foldl SetOp.apply set).containsAll order other ↔
        other.toFinset ⊆ ops.foldl SetOp.denote set.toFinset) := by
  rw [← SetOp.toFinset_foldl]
  refine ⟨Typed.len_eq_card _, fun x => ?_, ⟨?_, Typed.toFinset_visit _ order⟩,
    Typed.equals_iff _ order other, Typed.containsAll_iff _ order other⟩
  · rw [Typed.contains_eq, decide_eq_true_iff]
  · exact (order.perm _).nodup_iff.mpr (Typed.nodup _)

end EProxy
