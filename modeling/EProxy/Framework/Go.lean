import Mathlib.Logic.Basic

/-!
# Stateful computations that may panic

`Go σ ε α` is a computation over a state `σ` that returns an `α` or panics. A
panic does not undo what was done before it: the state it leaves is the one the
computation had reached, which is what a recovered panic exposes to the rest of
the program.

`ε` is the type of the errors a panic may report.
-/

namespace Framework

/-- Why a computation panicked. -/
inductive Panic (ε : Type) where
  /-- A logger call at panic level that reports `err`. -/
  | logged (err : ε)
  /-- A slice access past its length. -/
  | indexOutOfRange
  /-- A method call or a field access through a nil pointer or interface. -/
  | nilDereference
  deriving DecidableEq, Repr

/-- How a computation ends: it returns a value or it panics. -/
inductive Outcome (ε α : Type) where
  | ret (a : α)
  | panic (p : Panic ε)
  deriving DecidableEq, Repr

/-- The computation returned. -/
def Outcome.Returned {ε α : Type} : Outcome ε α → Prop
  | ret _ => True
  | panic _ => False

instance {ε α : Type} (o : Outcome ε α) : Decidable o.Returned :=
  match o with
  | .ret _ => .isTrue trivial
  | .panic _ => .isFalse id

@[simp] theorem Outcome.returned_ret {ε α : Type} (a : α) :
    (Outcome.ret a : Outcome ε α).Returned := trivial

@[simp] theorem Outcome.not_returned_panic {ε α : Type} (p : Panic ε) :
    ¬ (Outcome.panic p : Outcome ε α).Returned := id

/-- Sequencing of outcomes: the first panic ends the computation. -/
protected def Outcome.bind {ε α β : Type} : Outcome ε α → (α → Outcome ε β) → Outcome ε β
  | ret a, f => f a
  | panic p, _ => panic p

instance {ε : Type} : Monad (Outcome ε) where
  pure := .ret
  bind := Outcome.bind

/-- The value of an expression that panics when it has none. -/
def Outcome.ofOption {ε α : Type} (p : Panic ε) : Option α → Outcome ε α
  | some a => ret a
  | none => panic p

@[simp] theorem Outcome.pure_eq {ε α : Type} (a : α) : (pure a : Outcome ε α) = ret a := rfl

@[simp] theorem Outcome.ret_bind {ε α β : Type} (a : α) (f : α → Outcome ε β) :
    (ret a >>= f) = f a := rfl

@[simp] theorem Outcome.panic_bind {ε α β : Type} (p : Panic ε) (f : α → Outcome ε β) :
    (panic p >>= f) = panic p := rfl

/-- A computation over the state `σ`. -/
structure Go (σ ε α : Type) where
  run : σ → Outcome ε α × σ

namespace Go

variable {σ ε α β : Type}

/-- Return a value. -/
protected def pure (a : α) : Go σ ε α := ⟨fun s => (.ret a, s)⟩

/-- Run `x` and continue with its value; a panic of `x` is a panic of the whole. -/
protected def bind (x : Go σ ε α) (f : α → Go σ ε β) : Go σ ε β :=
  ⟨fun s =>
    match x.run s with
    | (.ret a, s') => (f a).run s'
    | (.panic p, s') => (.panic p, s')⟩

instance : Monad (Go σ ε) where
  pure := Go.pure
  bind := Go.bind

/-- Panic. -/
def panic (p : Panic ε) : Go σ ε α := ⟨fun s => (.panic p, s)⟩

/-- Read the state. -/
def get : Go σ ε σ := ⟨fun s => (.ret s, s)⟩

/-- A computation that does not touch the state. -/
def lift (o : Outcome ε α) : Go σ ε α := ⟨fun s => (o, s)⟩

/-- Change the state. -/
def modify (f : σ → σ) : Go σ ε Unit := ⟨fun s => (.ret (), f s)⟩

@[simp] theorem run_get (s : σ) : (get : Go σ ε σ).run s = (.ret s, s) := rfl

@[simp] theorem run_lift (o : Outcome ε α) (s : σ) : (lift o : Go σ ε α).run s = (o, s) := rfl

@[simp] theorem run_modify (f : σ → σ) (s : σ) :
    (modify f : Go σ ε Unit).run s = (.ret (), f s) := rfl

theorem run_bind (x : Go σ ε α) (f : α → Go σ ε β) (s : σ) :
    (x >>= f).run s =
      match x.run s with
      | (.ret a, s') => (f a).run s'
      | (.panic p, s') => (.panic p, s') := rfl

/-- Sequencing after a computation known to return. -/
theorem run_bind_ret {x : Go σ ε α} {f : α → Go σ ε β} {s s' : σ} {a : α}
    (h : x.run s = (.ret a, s')) : (x >>= f).run s = (f a).run s' := by
  rw [run_bind, h]

/-- Sequencing after a computation known to panic. -/
theorem run_bind_panic {x : Go σ ε α} {f : α → Go σ ε β} {s s' : σ} {p : Panic ε}
    (h : x.run s = (.panic p, s')) : (x >>= f).run s = (.panic p, s') := by
  rw [run_bind, h]

/-- A sequence that returned: both parts did. -/
theorem run_bind_eq_ret {x : Go σ ε α} {f : α → Go σ ε β} {s s' : σ} {b : β}
    (h : (x >>= f).run s = (.ret b, s')) :
    ∃ a s₁, x.run s = (.ret a, s₁) ∧ (f a).run s₁ = (.ret b, s') := by
  rw [run_bind] at h
  rcases hx : x.run s with ⟨_ | p, s₁⟩
  · rw [hx] at h
    exact ⟨_, _, rfl, h⟩
  · rw [hx] at h
    exact absurd (congrArg Prod.fst h) (by simp)

/-- The rule of sequencing for a transitive relation between the state before and the
state after, returned or not. -/
theorem run_bind_trans {R : σ → σ → Prop} (htrans : ∀ {a b c}, R a b → R b c → R a c)
    {x : Go σ ε α} {f : α → Go σ ε β} {s : σ} (hx : R s (x.run s).2)
    (hf : ∀ a s', x.run s = (.ret a, s') → R s' ((f a).run s').2) :
    R s ((x >>= f).run s).2 := by
  rw [run_bind]
  rcases hrun : x.run s with ⟨a | p, s'⟩
  · rw [hrun] at hx
    exact htrans hx (hf a s' hrun)
  · rw [hrun] at hx
    exact hx

/-- Replacing the value of a computation leaves its effect. -/
theorem run_bind_pure_snd (x : Go σ ε α) (b : β) (s : σ) :
    ((x >>= fun _ => (pure b : Go σ ε β)).run s).2 = (x.run s).2 := by
  rw [run_bind]
  rcases x.run s with ⟨_ | p, s'⟩ <;> rfl

/-- The computation whose value was replaced returned, if the whole did. -/
theorem run_bind_pure_eq_ret {x : Go σ ε α} {b b' : β} {s s' : σ}
    (h : (x >>= fun _ => (pure b : Go σ ε β)).run s = (.ret b', s')) :
    ∃ a, x.run s = (.ret a, s') := by
  obtain ⟨a, s₁, hx, hpure⟩ := run_bind_eq_ret h
  obtain rfl : s₁ = s' := congrArg Prod.snd hpure
  exact ⟨a, hx⟩

/-- Replacing the value of a computation does not change whether it returns. -/
theorem run_bind_pure_returned_iff (x : Go σ ε α) (b : β) (s : σ) :
    ((x >>= fun _ => (pure b : Go σ ε β)).run s).1.Returned ↔ (x.run s).1.Returned := by
  rw [run_bind]
  rcases x.run s with ⟨_ | p, s'⟩ <;> rfl

/-- A computation run for its effect. -/
def discard (x : Go σ ε α) : Go σ ε Unit := x >>= fun _ => pure ()

@[simp] theorem run_discard_snd (x : Go σ ε α) (s : σ) : (x.discard.run s).2 = (x.run s).2 :=
  run_bind_pure_snd x () s

theorem run_discard_ret {x : Go σ ε α} {s s' : σ} {a : α} (h : x.run s = (.ret a, s')) :
    x.discard.run s = (.ret (), s') := run_bind_ret h

theorem run_discard_panic {x : Go σ ε α} {s s' : σ} {p : Panic ε} (h : x.run s = (.panic p, s')) :
    x.discard.run s = (.panic p, s') := run_bind_panic h

/-- What follows a discarded value does not depend on it. -/
theorem run_discard_bind (x : Go σ ε α) (y : Go σ ε β) (s : σ) :
    (x.discard >>= fun _ => y).run s = (x >>= fun _ => y).run s := by
  rcases hx : x.run s with ⟨a | p, s'⟩
  · rw [run_bind_ret (run_discard_ret hx), run_bind_ret hx]
  · rw [run_bind_panic (run_discard_panic hx), run_bind_panic hx]

theorem run_discard_returned_iff (x : Go σ ε α) (s : σ) :
    (x.discard.run s).1.Returned ↔ (x.run s).1.Returned :=
  run_bind_pure_returned_iff x () s

theorem run_discard_fst_eq_ret_iff (x : Go σ ε α) (s : σ) :
    (x.discard.run s).1 = .ret () ↔ (x.run s).1.Returned := by
  rw [discard, run_bind]
  rcases x.run s with ⟨_ | p, s'⟩
  · exact iff_of_true rfl trivial
  · exact iff_of_false (by simp) id

end Go

end Framework
