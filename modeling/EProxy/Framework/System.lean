import Mathlib.Data.List.Induction

/-!
# Labelled transition systems and their runs

The behaviour of a stateful component is read off a `System`: one initial state
and a labelled step relation. A run is kept together with the list of its
transitions, each one carrying the state it left, its label and the state it
entered, so that a property of every step of a run, or of every state a run goes
through, is a quantification over that list.

* `Run.invariant` is the plain invariant rule;
* `Run.invariant_of` is the invariant rule for the runs all of whose steps meet a
  side condition;
* `Run.forall_iff_forall` compares two properties of steps along a run;
* `Run.component` carries the runs of a system over to a part of it;
* `Run.split` cuts a run at one of its transitions, `Run.exists_last_exit` finds the
  transition after which a predicate that got lost has never held again.
-/

namespace Framework

/-- A labelled transition system. -/
structure System (State Label : Type) where
  /-- The unique initial state of the system. -/
  init : State
  step : State → Label → State → Prop

/-- One step of a run: the state it leaves, its label and the state it enters. -/
structure Transition (State Label : Type) where
  pre : State
  label : Label
  post : State

variable {State Label : Type}

/-- `Run sys s tr s'`: the transitions `tr`, in order, lead from `s` to `s'`. -/
inductive Run (sys : System State Label) :
    State → List (Transition State Label) → State → Prop
  | nil (s : State) : Run sys s [] s
  | snoc {s s' s'' : State} {tr : List (Transition State Label)} {l : Label} :
      Run sys s tr s' → sys.step s' l s'' → Run sys s (tr ++ [⟨s', l, s''⟩]) s''

/-- The states a system can get to. -/
def System.Reachable (sys : System State Label) (s : State) : Prop :=
  ∃ tr, Run sys sys.init tr s

namespace Run

variable {sys : System State Label} {s s' : State} {tr : List (Transition State Label)}

/-- Every recorded transition is a step of the system. -/
theorem step_of_mem (h : Run sys s tr s') {t : Transition State Label} (ht : t ∈ tr) :
    sys.step t.pre t.label t.post := by
  induction h with
  | nil => exact absurd ht List.not_mem_nil
  | snoc hrun hstep ih =>
    rcases List.mem_append.mp ht with ht | ht
    · exact ih ht
    · obtain rfl := List.mem_singleton.mp ht
      exact hstep

/-- The last transition of a run. -/
theorem snoc_inv {t : Transition State Label} (h : Run sys s (tr ++ [t]) s') :
    Run sys s tr t.pre ∧ sys.step t.pre t.label t.post ∧ t.post = s' := by
  generalize htr : tr ++ [t] = l at h
  cases h with
  | nil => exact absurd htr (by simp)
  | snoc hrun hstep =>
    obtain ⟨rfl, ht⟩ := List.append_inj' htr rfl
    obtain rfl := List.singleton_inj.mp ht
    exact ⟨hrun, hstep, rfl⟩

/-- **Cutting a run** at one of its transitions. -/
theorem split {tr₁ tr₂ : List (Transition State Label)} {t : Transition State Label}
    (h : Run sys s (tr₁ ++ t :: tr₂) s') :
    Run sys s tr₁ t.pre ∧ sys.step t.pre t.label t.post ∧ Run sys t.post tr₂ s' := by
  induction tr₂ using List.reverseRecOn generalizing s' with
  | nil =>
    obtain ⟨hrun, hstep, rfl⟩ := h.snoc_inv
    exact ⟨hrun, hstep, .nil _⟩
  | append_singleton tr₂ u ih =>
    -- the last transition of the whole run is the last one of its second part
    rw [← List.cons_append, ← List.append_assoc] at h
    obtain ⟨hrun, hstep, rfl⟩ := h.snoc_inv
    obtain ⟨h₁, ht, h₂⟩ := ih hrun
    exact ⟨h₁, ht, h₂.snoc hstep⟩

/-- **The invariant rule under a side condition.** A predicate that every step
meeting `C` preserves holds at both ends of every transition of a run whose
steps all meet `C`, and at its last state. -/
theorem invariant_of {I : State → Prop} {C : State → Label → State → Prop}
    (h : Run sys s tr s') (h0 : I s)
    (hstep : ∀ a l b, I a → C a l b → sys.step a l b → I b)
    (hC : ∀ t ∈ tr, C t.pre t.label t.post) :
    I s' ∧ ∀ t ∈ tr, I t.pre ∧ I t.post := by
  induction h with
  | nil => exact ⟨h0, fun t ht => absurd ht List.not_mem_nil⟩
  | @snoc s₁ s₂ tr₀ l hrun hst ih =>
    obtain ⟨hI, hall⟩ := ih fun t ht => hC t (List.mem_append_left _ ht)
    have hc : C s₁ l s₂ := hC ⟨s₁, l, s₂⟩ (List.mem_append_right _ (List.mem_singleton.mpr rfl))
    have hnext : I s₂ := hstep s₁ l s₂ hI hc hst
    refine ⟨hnext, fun t ht => ?_⟩
    rcases List.mem_append.mp ht with ht | ht
    · exact hall t ht
    · obtain rfl := List.mem_singleton.mp ht
      exact ⟨hI, hnext⟩

/-- **The invariant rule.** -/
theorem invariant {I : State → Prop} (h : Run sys s tr s') (h0 : I s)
    (hstep : ∀ a l b, I a → sys.step a l b → I b) :
    I s' ∧ ∀ t ∈ tr, I t.pre ∧ I t.post :=
  h.invariant_of (C := fun _ _ _ => True) h0 (fun a l b hI _ => hstep a l b hI)
    fun _ _ => trivial

/-- **Comparing two properties of steps.** When steps from `I` have `P` exactly if
they have `Q`, and those with `P` lead to `I` again, then all steps of a run from `I`
have `P` exactly if all of them have `Q`. -/
theorem forall_iff_forall {I : State → Prop} {P Q : State → Label → State → Prop}
    (h : Run sys s tr s') (h0 : I s)
    (hiff : ∀ a l b, I a → sys.step a l b → (P a l b ↔ Q a l b))
    (hstep : ∀ a l b, I a → P a l b → sys.step a l b → I b) :
    (∀ t ∈ tr, P t.pre t.label t.post) ↔ ∀ t ∈ tr, Q t.pre t.label t.post := by
  constructor
  · intro hP t ht
    have hI := ((h.invariant_of h0 hstep hP).2 t ht).1
    exact (hiff _ _ _ hI (h.step_of_mem ht)).mp (hP t ht)
  · intro hQ t ht
    have hstepQ : ∀ a l b, I a → Q a l b → sys.step a l b → I b := fun a l b hI hq hst =>
      hstep a l b hI ((hiff a l b hI hst).mpr hq) hst
    have hI := ((h.invariant_of h0 hstepQ hQ).2 t ht).1
    exact (hiff _ _ _ hI (h.step_of_mem ht)).mpr (hQ t ht)

/-- **The run of a component.** When every step of a system is a step of the component that `π`
reads off its states, or leaves the component alone, then every run has a run of the component
in it. -/
theorem component {State' Label' : Type} {sys' : System State' Label'} {π : State → State'}
    {f : Transition State Label → Option (Transition State' Label')} (h : Run sys s tr s')
    (hstep : ∀ {a l b}, sys.step a l b → (f ⟨a, l, b⟩ = none ∧ π b = π a) ∨
      ∃ l', f ⟨a, l, b⟩ = some ⟨π a, l', π b⟩ ∧ sys'.step (π a) l' (π b)) :
    Run sys' (π s) (tr.filterMap f) (π s') := by
  induction h with
  | nil => exact .nil _
  | snoc hrun hst ih =>
    rw [List.filterMap_append]
    rcases hstep hst with ⟨hnone, hsame⟩ | ⟨l', hsome, hst'⟩
    · rw [List.filterMap_cons_none hnone, List.filterMap_nil, List.append_nil, hsame]
      exact ih
    · rw [List.filterMap_cons_some hsome, List.filterMap_nil]
      exact ih.snoc hst'

/-- **The last exit.** A run that starts in `P` and ends outside has a transition that
leaves `P` and after which `P` never holds again. -/
theorem exists_last_exit {P : State → Prop} (h : Run sys s tr s') (h0 : P s) (h1 : ¬ P s') :
    ∃ tr₁ t tr₂, tr = tr₁ ++ t :: tr₂ ∧ P t.pre ∧ ¬ P t.post ∧ ∀ u ∈ tr₂, ¬ P u.post := by
  induction h with
  | nil => exact absurd h0 h1
  | @snoc s₁ s₂ tr l hrun hst ih =>
    -- either the last transition leaves `P`, or an earlier one did
    by_cases hP : P s₁
    · exact ⟨tr, ⟨s₁, l, s₂⟩, [], rfl, hP, h1, fun u hu => absurd hu List.not_mem_nil⟩
    · obtain ⟨tr₁, t, tr₂, rfl, hpre, hpost, hlater⟩ := ih hP
      refine ⟨tr₁, t, tr₂ ++ [⟨s₁, l, s₂⟩], by simp, hpre, hpost, fun u hu => ?_⟩
      rcases List.mem_append.mp hu with hu | hu
      · exact hlater u hu
      · obtain rfl := List.mem_singleton.mp hu
        exact h1

end Run

theorem System.reachable_init (sys : System State Label) : sys.Reachable sys.init :=
  ⟨[], .nil _⟩

theorem System.Reachable.step {sys : System State Label} {s s' : State} {l : Label}
    (h : sys.Reachable s) (hstep : sys.step s l s') : sys.Reachable s' := by
  obtain ⟨tr, hrun⟩ := h
  exact ⟨_, hrun.snoc hstep⟩

/-- A predicate that holds initially and that every step preserves holds in every
reachable state. -/
theorem System.Reachable.invariant {sys : System State Label} {s : State} {I : State → Prop}
    (h : sys.Reachable s) (h0 : I sys.init)
    (hstep : ∀ a l b, I a → sys.step a l b → I b) : I s := by
  obtain ⟨tr, hrun⟩ := h
  exact (hrun.invariant h0 hstep).1

end Framework
