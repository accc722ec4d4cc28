import EProxy.Framework.Go

/-!
# Pre- and postconditions of computations that may panic

`Triple P x Q E`: from every state with `P` the computation `x` returns a value and a state
with `Q`, or panics and leaves a state with `E`. Every computation ends, so a triple is about
total correctness. There is one rule for each way to build a computation, and the rule of
consequence.
-/

namespace Framework

namespace Go

variable {σ ε α β : Type}

/-- What holds at the end of a computation. -/
def Post (Q : α → σ → Prop) (E : Panic ε → σ → Prop) : Outcome ε α × σ → Prop
  | (.ret a, s) => Q a s
  | (.panic p, s) => E p s

/-- The computation leads from `P` to `Q`, or by a panic to `E`. -/
def Triple (P : σ → Prop) (x : Go σ ε α) (Q : α → σ → Prop) (E : Panic ε → σ → Prop) : Prop :=
  ∀ s, P s → Post Q E (x.run s)

variable {P P' : σ → Prop} {Q Q' : α → σ → Prop} {E E' : Panic ε → σ → Prop} {x : Go σ ε α}

theorem triple_pure {a : α} (h : ∀ s, P s → Q a s) : Triple P (pure a : Go σ ε α) Q E := h

theorem triple_panic {p : Panic ε} (h : ∀ s, P s → E p s) :
    Triple P (Go.panic p : Go σ ε α) Q E := h

theorem triple_get {Q : σ → σ → Prop} (h : ∀ s, P s → Q s s) :
    Triple P (Go.get : Go σ ε σ) Q E := h

theorem triple_modify {f : σ → σ} {Q : Unit → σ → Prop} (h : ∀ s, P s → Q () (f s)) :
    Triple P (Go.modify f : Go σ ε Unit) Q E := h

/-- **Sequencing.** A panic of the first part is one of the whole. -/
theorem Triple.bind {f : α → Go σ ε β} {R : β → σ → Prop} (hx : Triple P x Q E)
    (hf : ∀ a, Triple (Q a) (f a) R E) : Triple P (x >>= f) R E := by
  intro s hs
  have hfirst := hx s hs
  rw [run_bind]
  rcases hrun : x.run s with ⟨a | p, s'⟩
  · rw [hrun] at hfirst
    exact hf a s' hfirst
  · rw [hrun] at hfirst
    exact hfirst

/-- **Consequence.** -/
theorem Triple.conseq (hx : Triple P x Q E) (hP : ∀ s, P' s → P s)
    (hQ : ∀ a s, Q a s → Q' a s) (hE : ∀ p s, E p s → E' p s) : Triple P' x Q' E' := by
  intro s hs
  have h := hx s (hP s hs)
  rcases hrun : x.run s with ⟨a | p, s'⟩
  · rw [hrun] at h
    exact hQ a s' h
  · rw [hrun] at h
    exact hE p s' h

/-- A weaker postcondition. -/
theorem Triple.post (hx : Triple P x Q E) (hQ : ∀ a s, Q a s → Q' a s) : Triple P x Q' E :=
  hx.conseq (fun _ h => h) hQ fun _ _ h => h

/-- A precondition that is a disjunction, or an existential statement, is taken apart. -/
theorem triple_exists {ι : Sort*} {P : ι → σ → Prop} (h : ∀ i, Triple (P i) x Q E) :
    Triple (fun s => ∃ i, P i s) x Q E := by
  rintro s ⟨i, hs⟩
  exact h i s hs

/-- A precondition that does not speak of the state is a hypothesis. -/
theorem triple_and {p : Prop} (h : p → Triple P x Q E) : Triple (fun s => P s ∧ p) x Q E := by
  rintro s ⟨hs, hp⟩
  exact h hp s hs

end Go

end Framework
