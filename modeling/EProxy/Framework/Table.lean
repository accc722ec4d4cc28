import Mathlib.Logic.Function.Basic

/-!
# Tables

A `Table K V` is a finite-or-not map from keys to values, read by application:
`t k = none` says that `k` is absent. It serves both for the maps of the host
language and for the kernel's hash maps.
-/

namespace Framework

/-- A map from `K` to `V`; `none` is an absent key. -/
def Table (K V : Type) : Type := K → Option V

namespace Table

variable {K V : Type}

/-- The table without entries. -/
def empty : Table K V := fun _ => none

@[simp] theorem empty_apply (k : K) : (empty : Table K V) k = none := rfl

variable [DecidableEq K]

/-- Insert an entry, overwriting the value the key had. -/
def set (t : Table K V) (k : K) (v : V) : Table K V := Function.update t k (some v)

/-- Remove a key. -/
def erase (t : Table K V) (k : K) : Table K V := Function.update t k none

@[simp] theorem set_self (t : Table K V) (k : K) (v : V) : t.set k v k = some v :=
  Function.update_self ..

theorem set_of_ne (t : Table K V) {k k' : K} (v : V) (h : k' ≠ k) : t.set k v k' = t k' :=
  Function.update_of_ne h ..

@[simp] theorem erase_self (t : Table K V) (k : K) : t.erase k k = none :=
  Function.update_self ..

theorem erase_of_ne (t : Table K V) {k k' : K} (h : k' ≠ k) : t.erase k k' = t k' :=
  Function.update_of_ne h ..

theorem set_apply (t : Table K V) (k k' : K) (v : V) :
    t.set k v k' = if k' = k then some v else t k' :=
  Function.update_apply ..

theorem erase_apply (t : Table K V) (k k' : K) :
    t.erase k k' = if k' = k then none else t k' :=
  Function.update_apply ..

/-- Removing a key that is absent changes nothing. -/
theorem erase_of_absent {t : Table K V} {k : K} (h : t k = none) : t.erase k = t := by
  funext k'
  rw [erase_apply]
  split
  · next hk => rw [hk, h]
  · rfl

/-- An entry that is written twice is the one written last. -/
theorem set_set (t : Table K V) (k : K) (v v' : V) : (t.set k v).set k v' = t.set k v' :=
  Function.update_idem ..

/-- An entry written after a removal is the one written. -/
theorem erase_set (t : Table K V) (k : K) (v : V) : (t.erase k).set k v = t.set k v :=
  Function.update_idem ..

/-- An entry removed after it was written is as good as not written. -/
theorem set_erase (t : Table K V) (k : K) (v : V) : (t.set k v).erase k = t.erase k :=
  Function.update_idem ..

/-- What is left after a removal was there before. -/
theorem of_erase {t : Table K V} {k k' : K} {v : V} (h : t.erase k k' = some v) :
    t k' = some v := by
  rw [erase_apply] at h
  split at h
  · exact absurd h (by simp)
  · exact h

/-! ### Assignments -/

/-- Insert an entry, or remove the key if there is none. -/
def assign (t : Table K V) (k : K) (v : Option V) : Table K V := Function.update t k v

@[simp] theorem assign_self (t : Table K V) (k : K) (v : Option V) : t.assign k v k = v :=
  Function.update_self ..

theorem assign_of_ne (t : Table K V) {k k' : K} (v : Option V) (h : k' ≠ k) :
    t.assign k v k' = t k' :=
  Function.update_of_ne h ..

theorem assign_none (t : Table K V) (k : K) : t.assign k none = t.erase k := rfl

/-- Assign one after the other. -/
def assignAll (t : Table K V) (changes : List (K × Option V)) : Table K V :=
  changes.foldl (fun t c => t.assign c.1 c.2) t

/-- Keys that are not assigned are left alone. -/
theorem assignAll_of_notMem {t : Table K V} {changes : List (K × Option V)} {k : K}
    (hk : k ∉ changes.map Prod.fst) : t.assignAll changes k = t k := by
  induction changes generalizing t with
  | nil => rfl
  | cons c changes ih =>
    rw [List.map_cons, List.mem_cons, not_or] at hk
    exact (ih hk.2).trans (t.assign_of_ne _ hk.1)

/-- What an assigned key was before does not matter. -/
theorem assignAll_of_mem {t : Table K V} (t' : Table K V) {changes : List (K × Option V)} {k : K}
    (hk : k ∈ changes.map Prod.fst) : t.assignAll changes k = t'.assignAll changes k := by
  induction changes generalizing t t' with
  | nil => exact absurd hk List.not_mem_nil
  | cons c changes ih =>
    by_cases hmem : k ∈ changes.map Prod.fst
    · exact ih _ hmem
    · obtain rfl : k = c.1 := (List.mem_cons.mp hk).resolve_right hmem
      calc (t.assign c.1 c.2).assignAll changes c.1
          = t.assign c.1 c.2 c.1 := assignAll_of_notMem hmem
        _ = t'.assign c.1 c.2 c.1 := by rw [assign_self, assign_self]
        _ = (t'.assign c.1 c.2).assignAll changes c.1 := (assignAll_of_notMem hmem).symm

/-- Keys that are all removed. -/
theorem assignAll_none {t : Table K V} {keys : List K} {k : K} (hk : k ∈ keys) :
    t.assignAll (keys.map fun k => (k, none)) k = none := by
  have hempty : ∀ keys : List K,
      (empty : Table K V).assignAll (keys.map fun k => (k, none)) = empty := by
    intro keys
    induction keys with
    | nil => rfl
    | cons key keys ih =>
      rw [List.map_cons, assignAll, List.foldl_cons, assign_none, erase_of_absent rfl]
      exact ih
  rw [assignAll_of_mem empty (by simpa using hk), hempty, empty_apply]

/-- Another table of the same keys. -/
def map {W : Type} (g : V → W) (t : Table K V) : Table K W := fun k => (t k).map g

theorem map_assign {W : Type} (g : V → W) (t : Table K V) (k : K) (v : Option V) :
    (t.assign k v).map g = (t.map g).assign k (v.map g) := by
  funext k'
  by_cases hk : k' = k
  · rw [hk, assign_self, map, assign_self]
  · rw [assign_of_ne _ _ hk, map, assign_of_ne _ _ hk, map]

theorem map_assignAll {W : Type} (g : V → W) (t : Table K V) (changes : List (K × Option V)) :
    (t.assignAll changes).map g = (t.map g).assignAll (changes.map fun c => (c.1, c.2.map g)) := by
  induction changes generalizing t with
  | nil => rfl
  | cons c changes ih =>
    have hrest := ih (t.assign c.1 c.2)
    rw [map_assign] at hrest
    exact hrest

end Table

end Framework
