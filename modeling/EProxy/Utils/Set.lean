import Mathlib.Data.List.Perm.Basic
import EProxy.Framework.Go

/-!
# `pkg/utils/set`

A `Typed` set is a Go map to empty values that has been made, here the list of its members
without repetition; the nil map that `Empty` returns, which nothing calls and on which `Add`
panics, is not one of them. Go visits the members of a map in an order that changes from one loop
to the next; every loop over a set therefore takes an `IterOrder`, an arbitrary
rearrangement of the members, and nothing below depends on the order in which the
list itself happens to hold them.
-/

namespace EProxy

open Framework

/-- `set.Typed[T]`. -/
structure Typed (T : Type) where
  items : List T
  nodup : items.Nodup
  deriving DecidableEq

/-- The order in which a loop over a map visits its members. -/
structure IterOrder (T : Type) where
  visit : List T → List T
  perm : ∀ items, (visit items).Perm items

/-- The order of insertion, one of the possible ones. -/
def IterOrder.insertion (T : Type) : IterOrder T := ⟨id, List.Perm.refl⟩

/-- An order that visits a given member first. -/
def IterOrder.first {T : Type} [DecidableEq T] (x : T) : IterOrder T where
  visit items := if x ∈ items then x :: items.erase x else items
  perm items := by
    split
    · next h => exact (List.perm_cons_erase h).symm
    · exact List.Perm.refl _

theorem IterOrder.first_visit {T : Type} [DecidableEq T] {x : T} {items : List T}
    (h : x ∈ items) : (IterOrder.first x).visit items = x :: items.erase x := if_pos h

/-- What a visitor may return: the two sentinels of the package, or an error of
its own. -/
inductive IterError (ε : Type) where
  | stopIteration
  | removeItem
  | other (err : ε)
  deriving DecidableEq

namespace Typed

variable {T σ ε : Type} [DecidableEq T]

/-- `New`. -/
def new : Typed T := ⟨[], List.nodup_nil⟩

/-- `Add`. -/
def add (set : Typed T) (item : T) : Typed T :=
  if h : item ∈ set.items then set
  else ⟨item :: set.items, List.nodup_cons.mpr ⟨h, set.nodup⟩⟩

/-- `Discard`, the `delete` of the underlying map. -/
def discard (set : Typed T) (item : T) : Typed T :=
  ⟨set.items.erase item, set.nodup.erase item⟩

theorem mem_add (set : Typed T) (item x : T) :
    x ∈ (set.add item).items ↔ x = item ∨ x ∈ set.items := by
  unfold add
  split
  · next h => exact ⟨Or.inr, fun hx => hx.elim (fun e => e ▸ h) id⟩
  · exact List.mem_cons

theorem mem_discard (set : Typed T) (item x : T) :
    x ∈ (set.discard item).items ↔ x ≠ item ∧ x ∈ set.items :=
  set.nodup.mem_erase_iff

/-- The loop of `Iter` over the members still to be visited. It returns the set as
the loop leaves it. -/
def iterFrom (visitor : T → Go σ ε (Option (IterError ε))) :
    List T → Typed T → Go σ ε (Typed T)
  | [], set => pure set
  | item :: rest, set => do
    match ← visitor item with
    | some .stopIteration => pure set
    | some .removeItem => iterFrom visitor rest (set.discard item)
    | none => iterFrom visitor rest set
    | some (.other err) => Go.panic (.logged err)

/-- `Iter`. -/
def iter (set : Typed T) (order : IterOrder T)
    (visitor : T → Go σ ε (Option (IterError ε))) : Go σ ε (Typed T) :=
  iterFrom visitor (order.visit set.items) set

end Typed

end EProxy
