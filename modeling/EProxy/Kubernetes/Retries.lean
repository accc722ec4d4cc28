import EProxy.Framework.WorkQueue
import EProxy.Kubernetes.Controller
import EProxy.Manager.Extraction

/-!
# `pkg/kubernetes/controller/basecontroller.go`: retries

The base controller hands the keys of its queue to a handler. A key whose handler fails is
put back through the rate limiter, `MaxRetries` times at most (zero is no limit); after
that it is dropped. The count of how often a key was put back is the queue's, and is reset
by `Forget`.

Three of the four ways out of `processNextWorkItem` end the handling of an item (`WorkExit`),
and two of them call `Forget`: the one for an item that is not a string and the one for a
handler that succeeded. The drop does not, so a key that was dropped once keeps a count of
`MaxRetries`, and its next event is dropped at the first failure.

`FullBudget` is what a new event should find, and `exists_run_to_drop` spends it.
`fullBudget_iff_not_exhausted` is the statement for whole runs: every item that is finished
has its full budget again exactly if no handler of the run fails when the retries of its key
are used up.

Everything is over an arbitrary queue that has the interface, and over handlers that succeed
or fail in any pattern.
-/

namespace EProxy

open Framework RateLimitingInterface

/-- A value on the queue, of type `interface{}`. -/
inductive Item where
  | string (key : String)
  | other (value : ℕ)
  deriving DecidableEq

/-- `BaseController`: the queue and the limit. -/
structure BaseController (Q : Type) where
  workqueue : Q
  maxRetries : ℤ

/-- The ways out of the closure in `processNextWorkItem`. -/
inductive WorkExit where
  /-- The item is not a string. -/
  | notString
  /-- The handler failed and the key was put back. -/
  | requeued
  /-- The handler failed and the key was given up. -/
  | dropped
  /-- The handler succeeded. -/
  | synced
  deriving DecidableEq

namespace BaseController

variable {Q ε : Type} [RateLimitingInterface Q Item]

/-- `Enqueue`. -/
def enqueue (c : BaseController Q) (obj : Obj) : BaseController Q :=
  match obj.queueKey with
  | none => c
  | some key => { c with workqueue := add c.workqueue (.string key) }

/-- The closure in `processNextWorkItem`, up to its deferred call. -/
def syncItem (c : BaseController Q) (handler : String → Option ε) (obj : Item) :
    WorkExit × BaseController Q :=
  match obj with
  | .other _ => (.notString, { c with workqueue := forget c.workqueue obj })
  | .string key =>
    match handler key with
    | some _ =>
      if c.maxRetries = 0 ∨ (numRequeues c.workqueue (.string key) : ℤ) < c.maxRetries then
        (.requeued, { c with workqueue := addRateLimited c.workqueue (.string key) })
      else
        -- the key is given up without `Forget`
        (.dropped, c)
    | none => (.synced, { c with workqueue := forget c.workqueue obj })

/-- `processNextWorkItem`: the item it takes, the way out, and the controller afterwards.
Without an item there is no step: `Get` blocks, or the queue is shut down. -/
def processNextWorkItem (c : BaseController Q) (handler : String → Option ε) :
    Option (Item × WorkExit × BaseController Q) :=
  match get c.workqueue with
  | none => none
  | some (obj, q) =>
    let out := ({ c with workqueue := q } : BaseController Q).syncItem handler obj
    some (obj, out.1, { out.2 with workqueue := done out.2.workqueue obj })

end BaseController

/-! ### Runs -/

/-- The steps of the controller and its queue. A step of a worker carries the handler it
runs, the item it takes and the way out. -/
inductive ControllerLabel (ε : Type) where
  | enqueue (obj : Obj)
  | add (item : Item)
  | elapse
  | process (handler : String → Option ε) (item : Item) (exit : WorkExit)

/-- The controller: objects are enqueued, other code adds items of its own to the queue, the
delay of an item ends, a worker processes the next item. -/
def controllerSystem (ε : Type) {Q : Type} [RateLimitingInterface Q Item]
    (init : BaseController Q) : System (BaseController Q) (ControllerLabel ε) where
  init := init
  step c l c' :=
    match l with
    | .enqueue obj => c' = c.enqueue obj
    | .add item => c' = { c with workqueue := add c.workqueue item }
    | .elapse => c'.maxRetries = c.maxRetries ∧ Elapses c.workqueue c'.workqueue
    | .process handler item exit => c.processNextWorkItem handler = some (item, exit, c')

/-- The way out of the handling of the key, for a step that handles it. -/
def ControllerLabel.exitOf {ε : Type} (key : String) : ControllerLabel ε → Option WorkExit
  | .process _ item exit => if item = .string key then some exit else none
  | _ => none

variable {Q ε : Type} [RateLimitingInterface Q Item]

/-- How the handlings of the key in a run ended, in order. -/
def exits (key : String) (tr : List (Transition (BaseController Q) (ControllerLabel ε))) :
    List WorkExit :=
  tr.filterMap fun t => t.label.exitOf key

/-- Every handler that the run calls on the key fails. -/
def Failing (key : String) (tr : List (Transition (BaseController Q) (ControllerLabel ε))) :
    Prop :=
  ∀ t ∈ tr, ∀ handler exit, t.label = .process handler (.string key) exit → (handler key).isSome

/-- How the first `n` handlings of a key with `left` retries left end when all of them
fail. -/
def budgetExits (left n : ℕ) : List WorkExit :=
  (List.range n).map fun i => if i < left then .requeued else .dropped

/-- The item counts as never put back. So, whatever else happens, a handler that keeps
failing on its key is run `MaxRetries` times with the key put back and once more with the key
dropped. -/
def FullBudget (ε : Type) (c : BaseController Q) (item : Item) : Prop :=
  numRequeues c.workqueue item = 0 ∧
  ∀ key, item = .string key →
    ∀ (tr : List (Transition (BaseController Q) (ControllerLabel ε))) (c' : BaseController Q),
      Run (controllerSystem ε c) c tr c' → Failing key tr →
      exits key tr = budgetExits c.maxRetries.toNat (exits key tr).length

/-- A step that finishes an item leaves it with its full budget. -/
def ControllerLabel.Restores (l : ControllerLabel ε) (c' : BaseController Q) : Prop :=
  ∀ handler item exit, l = .process handler item exit → exit ≠ .requeued →
    FullBudget ε c' item

/-- If the step handles a key, its handler succeeds or the key has been put back less than
`MaxRetries` times. -/
def ControllerLabel.NotExhausted (c : BaseController Q) (l : ControllerLabel ε) : Prop :=
  ∀ handler key exit, l = .process handler (.string key) exit →
    handler key = none ∨ (numRequeues c.workqueue (.string key) : ℤ) < c.maxRetries

/-! ### What a step does to the counts -/

/-- The handler may fail on the key once more without the key being dropped. -/
def BaseController.RetriesLeft (c : BaseController Q) (key : String) : Prop :=
  c.maxRetries = 0 ∨ (numRequeues c.workqueue (.string key) : ℤ) < c.maxRetries

/-- The count of the item has become `n`, the others are as they were. -/
def BaseController.Counts (c : BaseController Q) (item : Item) (n : ℕ) (c' : BaseController Q) :
    Prop :=
  ∀ b, numRequeues c'.workqueue b = if b = item then n else numRequeues c.workqueue b

namespace BaseController

variable {c : BaseController Q} {handler : String → Option ε} {key : String}

theorem syncItem_synced (h : handler key = none) :
    c.syncItem handler (.string key) =
      (.synced, { c with workqueue := forget c.workqueue (.string key) }) := by
  simp only [syncItem, h]

theorem syncItem_requeued (h : (handler key).isSome) (hleft : c.RetriesLeft key) :
    c.syncItem handler (.string key) =
      (.requeued, { c with workqueue := addRateLimited c.workqueue (.string key) }) := by
  obtain ⟨err, herr⟩ := Option.isSome_iff_exists.mp h
  simp only [syncItem, herr]
  exact if_pos hleft

theorem syncItem_dropped (h : (handler key).isSome) (hleft : ¬ c.RetriesLeft key) :
    c.syncItem handler (.string key) = (.dropped, c) := by
  obtain ⟨err, herr⟩ := Option.isSome_iff_exists.mp h
  simp only [syncItem, herr]
  exact if_neg hleft

end BaseController

/-- Taking an item spends no retry. -/
theorem retriesLeft_get {c : BaseController Q} {item : Item} {q : Q}
    (hget : get c.workqueue = some (item, q)) {key : String} :
    ({ c with workqueue := q } : BaseController Q).RetriesLeft key ↔ c.RetriesLeft key := by
  simp only [BaseController.RetriesLeft, numRequeues_get hget]

/-- What a step of a worker is made of. -/
theorem processNextWorkItem_eq_some {c c' : BaseController Q} {handler : String → Option ε}
    {item : Item} {exit : WorkExit} (h : c.processNextWorkItem handler = some (item, exit, c')) :
    ∃ q c₁, get c.workqueue = some (item, q) ∧
      ({ c with workqueue := q } : BaseController Q).syncItem handler item = (exit, c₁) ∧
      c' = { c₁ with workqueue := done c₁.workqueue item } := by
  unfold BaseController.processNextWorkItem at h
  cases hget : get c.workqueue with
  | none =>
    rw [hget] at h
    exact absurd h (by simp)
  | some taken =>
    obtain ⟨obj, q⟩ := taken
    simp only [hget, Option.some.injEq, Prod.mk.injEq] at h
    obtain ⟨rfl, rfl, rfl⟩ := h
    exact ⟨q, _, rfl, rfl, rfl⟩

theorem processNextWorkItem_of_get {c c₁ : BaseController Q} {handler : String → Option ε}
    {item : Item} {exit : WorkExit} {q : Q} (hget : get c.workqueue = some (item, q))
    (hsync : ({ c with workqueue := q } : BaseController Q).syncItem handler item = (exit, c₁)) :
    c.processNextWorkItem handler =
      some (item, exit, { c₁ with workqueue := done c₁.workqueue item }) := by
  simp only [BaseController.processNextWorkItem, hget, hsync]

/-- Everything `processNextWorkItem` can do, by the way out. -/
inductive Processed (c : BaseController Q) (handler : String → Option ε)
    (c' : BaseController Q) : Item → WorkExit → Prop
  | notString (value : ℕ) : c.Counts (.other value) 0 c' →
      Processed c handler c' (.other value) .notString
  | requeued (key : String) : (handler key).isSome → c.RetriesLeft key →
      c.Counts (.string key) (numRequeues c.workqueue (.string key) + 1) c' →
      Processed c handler c' (.string key) .requeued
  | dropped (key : String) : (handler key).isSome → ¬ c.RetriesLeft key →
      c.Counts (.string key) (numRequeues c.workqueue (.string key)) c' →
      Processed c handler c' (.string key) .dropped
  | synced (key : String) : handler key = none → c.Counts (.string key) 0 c' →
      Processed c handler c' (.string key) .synced

theorem processNextWorkItem_processed {c c' : BaseController Q} {handler : String → Option ε}
    {item : Item} {exit : WorkExit} (h : c.processNextWorkItem handler = some (item, exit, c')) :
    c'.maxRetries = c.maxRetries ∧ Processed c handler c' item exit := by
  obtain ⟨q, c₁, hget, hsync, rfl⟩ := processNextWorkItem_eq_some h
  -- taking the item changes no count, and neither does the deferred call
  have hq := numRequeues_get hget
  cases item with
  | other value =>
    obtain ⟨rfl, rfl⟩ := Prod.mk.inj hsync
    refine ⟨rfl, .notString value fun b => ?_⟩
    simp only [numRequeues_done, numRequeues_forget, hq]
  | string key =>
    cases hkey : handler key with
    | none =>
      rw [BaseController.syncItem_synced hkey] at hsync
      obtain ⟨rfl, rfl⟩ := Prod.mk.inj hsync
      refine ⟨rfl, .synced key hkey fun b => ?_⟩
      simp only [numRequeues_done, numRequeues_forget, hq]
    | some err =>
      have hfail : (handler key).isSome := by rw [hkey]; rfl
      by_cases hleft : c.RetriesLeft key
      · rw [BaseController.syncItem_requeued hfail ((retriesLeft_get hget).mpr hleft)] at hsync
        obtain ⟨rfl, rfl⟩ := Prod.mk.inj hsync
        refine ⟨rfl, .requeued key hfail hleft fun b => ?_⟩
        simp only [numRequeues_done, numRequeues_addRateLimited, hq]
        split
        · next hb => rw [hb]
        · rfl
      · rw [BaseController.syncItem_dropped hfail (mt (retriesLeft_get hget).mp hleft)] at hsync
        obtain ⟨rfl, rfl⟩ := Prod.mk.inj hsync
        refine ⟨rfl, .dropped key hfail hleft fun b => ?_⟩
        simp only [numRequeues_done, hq]
        split
        · next hb => rw [hb]
        · rfl

section Steps

variable {c₀ c c' : BaseController Q} {l : ControllerLabel ε} {key : String}

theorem retriesLeft_iff (hm : 0 < c.maxRetries) :
    c.RetriesLeft key ↔ numRequeues c.workqueue (.string key) < c.maxRetries.toNat := by
  unfold BaseController.RetriesLeft
  omega

/-- `Enqueue` changes nothing but what is to be taken. -/
theorem enqueue_counts (c : BaseController Q) (obj : Obj) :
    (c.enqueue obj).maxRetries = c.maxRetries ∧
      ∀ b, numRequeues (c.enqueue obj).workqueue b = numRequeues c.workqueue b := by
  unfold BaseController.enqueue
  cases obj.queueKey with
  | none => exact ⟨rfl, fun b => rfl⟩
  | some key => exact ⟨rfl, fun b => numRequeues_add _ _ b⟩

/-- No step changes the limit. -/
theorem step_maxRetries (hstep : (controllerSystem ε c₀).step c l c') :
    c'.maxRetries = c.maxRetries := by
  cases l with
  | enqueue obj =>
    obtain rfl : c' = c.enqueue obj := hstep
    exact (enqueue_counts c obj).1
  | add item =>
    obtain rfl : c' = { c with workqueue := add c.workqueue item } := hstep
    rfl
  | elapse => exact hstep.1
  | process handler item exit => exact (processNextWorkItem_processed hstep).1

/-- A step that does not handle the key leaves its count alone. -/
theorem step_count_of_exitOf_eq_none (hstep : (controllerSystem ε c₀).step c l c')
    (hother : l.exitOf key = none) :
    numRequeues c'.workqueue (.string key) = numRequeues c.workqueue (.string key) := by
  cases l with
  | enqueue obj =>
    obtain rfl : c' = c.enqueue obj := hstep
    exact (enqueue_counts c obj).2 _
  | add item =>
    obtain rfl : c' = { c with workqueue := add c.workqueue item } := hstep
    exact numRequeues_add _ _ _
  | elapse => exact numRequeues_elapses hstep.2 _
  | process handler item exit =>
    obtain ⟨-, hprocessed⟩ := processNextWorkItem_processed hstep
    have hne : Item.string key ≠ item := by
      rintro rfl
      simp [ControllerLabel.exitOf] at hother
    -- in each case the count of another item is the old one
    cases hprocessed with
    | notString value hcounts => rw [hcounts, if_neg hne]
    | requeued key' hfail hleft hcounts => rw [hcounts, if_neg hne]
    | dropped key' hfail hleft hcounts => rw [hcounts, if_neg hne]
    | synced key' hok hcounts => rw [hcounts, if_neg hne]

/-- A step that handles the key with a handler that fails: the key is put back while the
count is below the limit, and dropped from then on. -/
theorem failing_step_counts (hm : 0 < c.maxRetries) {handler : String → Option ε}
    {exit : WorkExit}
    (hstep : (controllerSystem ε c₀).step c (.process handler (.string key) exit) c')
    (hfail : (handler key).isSome) :
    let n := numRequeues c.workqueue (.string key)
    (exit = if n < c.maxRetries.toNat then .requeued else .dropped) ∧
      numRequeues c'.workqueue (.string key) = if n < c.maxRetries.toNat then n + 1 else n := by
  intro n
  obtain ⟨-, hprocessed⟩ := processNextWorkItem_processed hstep
  cases hprocessed with
  | requeued _ _ hleft hcounts =>
    have hlt := (retriesLeft_iff hm).mp hleft
    rw [if_pos hlt, if_pos hlt, hcounts, if_pos rfl]
    exact ⟨rfl, rfl⟩
  | dropped _ _ hleft hcounts =>
    have hge := mt (retriesLeft_iff hm).mpr hleft
    rw [if_neg hge, if_neg hge, hcounts, if_pos rfl]
    exact ⟨rfl, rfl⟩
  | synced _ hok _ =>
    rw [hok] at hfail
    exact absurd hfail (by simp)

end Steps

/-! ### What a key with some retries left gets -/

theorem budgetExits_succ (left n : ℕ) : budgetExits left (n + 1) =
    budgetExits left n ++ [if n < left then .requeued else .dropped] := by
  simp [budgetExits, List.range_succ]

omit [RateLimitingInterface Q Item] in
theorem exits_append (key : String)
    (tr : List (Transition (BaseController Q) (ControllerLabel ε)))
    (t : Transition (BaseController Q) (ControllerLabel ε)) :
    exits key (tr ++ [t]) = exits key tr ++ (t.label.exitOf key).toList := by
  unfold exits
  rw [List.filterMap_append]
  cases h : t.label.exitOf key <;> simp [h]

theorem exitOf_eq_some {l : ControllerLabel ε} {key : String} {exit : WorkExit}
    (h : l.exitOf key = some exit) : ∃ handler, l = .process handler (.string key) exit := by
  cases l with
  | process handler item exit' =>
    simp only [ControllerLabel.exitOf] at h
    split at h
    · next hitem => exact ⟨handler, by rw [hitem, Option.some.inj h]⟩
    · exact absurd h (by simp)
  | enqueue obj => exact absurd h (by simp [ControllerLabel.exitOf])
  | add item => exact absurd h (by simp [ControllerLabel.exitOf])
  | elapse => exact absurd h (by simp [ControllerLabel.exitOf])

/-- **The retries a run spends.** Along a run in which every handler fails on the key, the
key is put back as often as it has retries left and dropped from then on, and its count says
how many of them are spent. -/
theorem exits_of_failing {c₀ c c' : BaseController Q} {key : String}
    {tr : List (Transition (BaseController Q) (ControllerLabel ε))}
    (hrun : Run (controllerSystem ε c₀) c tr c') (hm : 0 < c.maxRetries) (hfail : Failing key tr) :
    let spent := numRequeues c.workqueue (.string key)
    let left := c.maxRetries.toNat - spent
    exits key tr = budgetExits left (exits key tr).length ∧
      numRequeues c'.workqueue (.string key) = spent + min (exits key tr).length left ∧
      c'.maxRetries = c.maxRetries := by
  intro spent left
  induction hrun with
  | nil => exact ⟨rfl, by simp [exits, spent], rfl⟩
  | @snoc c₁ c₂ tr l hrun hstep ih =>
    obtain ⟨hexits, hcount, hmax⟩ := ih fun t ht => hfail t (List.mem_append_left _ ht)
    rw [exits_append]
    change exits key tr ++ (l.exitOf key).toList = _ ∧ _ ∧ _
    cases hl : l.exitOf key with
    | none =>
      rw [Option.toList_none, List.append_nil, step_count_of_exitOf_eq_none hstep hl]
      exact ⟨hexits, hcount, (step_maxRetries hstep).trans hmax⟩
    | some exit =>
      obtain ⟨handler, rfl⟩ := exitOf_eq_some hl
      have hm₁ : 0 < c₁.maxRetries := by rw [hmax]; exact hm
      have hf := hfail _ (List.mem_append_right _ (List.mem_singleton.mpr rfl)) handler exit rfl
      obtain ⟨hexit, hcount'⟩ := failing_step_counts hm₁ hstep hf
      rw [hmax, hcount] at hexit hcount'
      -- the key is below the limit as long as it has been handled less often than it has
      -- retries left
      have hlt : spent + min (exits key tr).length left < c.maxRetries.toNat ↔
          (exits key tr).length < left := by omega
      simp only [hlt] at hexit hcount'
      rw [Option.toList_some, List.length_append, List.length_singleton, budgetExits_succ]
      refine ⟨by rw [← hexits, hexit], ?_, (step_maxRetries hstep).trans hmax⟩
      rw [hcount']
      split
      · omega
      · omega

/-! ### The budget of a new event -/

/-- A count of zero is all that a full budget takes. -/
theorem fullBudget_iff {c : BaseController Q} (hm : 0 < c.maxRetries) (item : Item) :
    FullBudget ε c item ↔ numRequeues c.workqueue item = 0 := by
  refine ⟨And.left, fun hzero => ⟨hzero, fun key hkey tr c' hrun hfail => ?_⟩⟩
  subst hkey
  have hexits := (exits_of_failing hrun hm hfail).1
  rw [hzero, Nat.sub_zero] at hexits
  exact hexits

theorem restores_process {c' : BaseController Q} {handler : String → Option ε} {item : Item}
    {exit : WorkExit} (h : exit ≠ .requeued → FullBudget ε c' item) :
    (ControllerLabel.process handler item exit).Restores c' := by
  rintro _ _ _ heq hexit
  obtain ⟨rfl, rfl, rfl⟩ := ControllerLabel.process.inj heq
  exact h hexit

theorem notExhausted_process {c : BaseController Q} {handler : String → Option ε} {item : Item}
    {exit : WorkExit}
    (h : ∀ key, item = .string key →
      handler key = none ∨ (numRequeues c.workqueue (.string key) : ℤ) < c.maxRetries) :
    (ControllerLabel.process handler item exit).NotExhausted c := by
  rintro _ key _ heq
  obtain ⟨rfl, rfl, rfl⟩ := ControllerLabel.process.inj heq
  exact h key rfl

/-- **The step.** The items that are finished without being forgotten are the keys that
failed with their retries used up. -/
theorem step_restores_iff {c₀ c c' : BaseController Q} {l : ControllerLabel ε}
    (hm : 0 < c.maxRetries) (hstep : (controllerSystem ε c₀).step c l c') :
    l.Restores c' ↔ l.NotExhausted c := by
  cases l with
  | enqueue obj => exact iff_of_true (fun _ _ _ h => by simp at h) fun _ _ _ h => by simp at h
  | add item => exact iff_of_true (fun _ _ _ h => by simp at h) fun _ _ _ h => by simp at h
  | elapse => exact iff_of_true (fun _ _ _ h => by simp at h) fun _ _ _ h => by simp at h
  | process handler item exit =>
    obtain ⟨hmax, hprocessed⟩ := processNextWorkItem_processed hstep
    have hm' : 0 < c'.maxRetries := by rw [hmax]; exact hm
    cases hprocessed with
    | notString value hcounts =>
      refine iff_of_true (restores_process fun _ => ?_) (notExhausted_process fun _ h => ?_)
      · exact (fullBudget_iff hm' _).mpr (by rw [hcounts, if_pos rfl])
      · exact absurd h (by simp)
    | synced key hok hcounts =>
      refine iff_of_true (restores_process fun _ => ?_) (notExhausted_process fun key' h => ?_)
      · exact (fullBudget_iff hm' _).mpr (by rw [hcounts, if_pos rfl])
      · rw [← Item.string.inj h]
        exact Or.inl hok
    | requeued key hfail hleft hcounts =>
      refine iff_of_true (restores_process fun h => absurd rfl h)
        (notExhausted_process fun key' h => ?_)
      rw [← Item.string.inj h]
      exact Or.inr (hleft.resolve_left hm.ne')
    | dropped key hfail hleft hcounts =>
      -- the count stays at the limit, which is not zero
      refine iff_of_false (fun h => ?_) fun h => ?_
      · have hzero := (h _ _ _ rfl (by simp)).1
        rw [hcounts, if_pos rfl] at hzero
        exact hleft (Or.inr (by rw [hzero]; exact hm))
      · rcases h _ _ _ rfl with hok | hlt
        · rw [hok] at hfail
          exact absurd hfail (by simp)
        · exact hleft (Or.inr hlt)

/-- **Exactly when every new event gets the full budget.** Over every run of a controller
with a limit, from any counts its queue may start with: whenever an item is finished without
being put back its count is zero, and of the handlers that from then on keep failing on it
the first `MaxRetries` see it put back and the next one sees it dropped, if and only if no
handler of the run fails on a key whose retries are used up. -/
theorem fullBudget_iff_not_exhausted {c₀ c : BaseController Q} (hm : 0 < c₀.maxRetries)
    {tr : List (Transition (BaseController Q) (ControllerLabel ε))}
    (hrun : Run (controllerSystem ε c₀) c₀ tr c) :
    (∀ t ∈ tr, t.label.Restores t.post) ↔ ∀ t ∈ tr, t.label.NotExhausted t.pre :=
  hrun.forall_iff_forall
    (I := fun c => 0 < c.maxRetries)
    (P := fun _ l c' => ControllerLabel.Restores l c')
    (Q := fun c l _ => ControllerLabel.NotExhausted c l)
    hm (fun _ _ _ hI hst => step_restores_iff hI hst)
    fun _ _ _ hI _ hst => (step_maxRetries hst).symm ▸ hI

/-- A new controller that retries once. -/
def retriesOnce : BaseController (WorkQueue Item) := ⟨.new, 1⟩

/-- A slice the controller is told about. -/
def webEvent : Obj := .endpointSlice (webSlice ⟨"web-c", by decide⟩ "10.244.0.1")

/-- Its key. -/
def webKey : String := "EndpointSlice/default/web-c"

/-- The controller with the key put back once and delayed. -/
def webDelayed : BaseController (WorkQueue Item) :=
  ⟨⟨[], ∅, ∅, {.string webKey}, Function.update (fun _ => 0) (.string webKey) 1⟩, 1⟩

/-- The controller with the delay over. -/
def webRetried : BaseController (WorkQueue Item) :=
  ⟨⟨[.string webKey], {.string webKey}, ∅, ∅, webDelayed.workqueue.failures⟩, 1⟩

/-- An event whose handler fails once. -/
def webFails : List (Transition (BaseController (WorkQueue Item)) (ControllerLabel Unit)) :=
  [⟨retriesOnce, .enqueue webEvent, retriesOnce.enqueue webEvent⟩,
    ⟨retriesOnce.enqueue webEvent, .process (fun _ => some ()) (.string webKey) .requeued,
      webDelayed⟩,
    ⟨webDelayed, .elapse, webRetried⟩]

theorem run_webFails : Run (controllerSystem Unit retriesOnce) retriesOnce webFails webRetried := by
  have henqueue : (controllerSystem Unit retriesOnce).step retriesOnce (.enqueue webEvent)
      (retriesOnce.enqueue webEvent) := rfl
  have hfail : (controllerSystem Unit retriesOnce).step (retriesOnce.enqueue webEvent)
      (.process (fun _ => some ()) (.string webKey) .requeued) webDelayed := rfl
  have helapse : (controllerSystem Unit retriesOnce).step webDelayed .elapse webRetried :=
    ⟨rfl, .string webKey, Finset.mem_singleton_self _, rfl⟩
  exact (((Run.nil retriesOnce).snoc henqueue).snoc hfail).snoc helapse

/-- The controller after the retry succeeded. -/
def webSynced : BaseController (WorkQueue Item) :=
  ⟨⟨[], ∅, ∅, ∅, Function.update webDelayed.workqueue.failures (.string webKey) 0⟩, 1⟩

/-- The key has its full budget again when the retry succeeds. -/
theorem fullBudget_webSynced : FullBudget Unit webSynced (.string webKey) := by
  have hsync : (controllerSystem Unit retriesOnce).step webRetried
      (.process (fun _ => none) (.string webKey) .synced) webSynced := rfl
  refine (fullBudget_iff_not_exhausted (by decide) (run_webFails.snoc hsync)).mpr (fun t ht => ?_) _
    (List.mem_append_right _ (List.mem_singleton.mpr rfl)) _ _ _ rfl (by decide)
  -- the only failure comes with the count at zero
  simp only [webFails, List.cons_append, List.nil_append, List.mem_cons, List.not_mem_nil,
    or_false] at ht
  rcases ht with rfl | rfl | rfl | rfl
  · exact fun _ _ _ h => by simp at h
  · exact notExhausted_process fun key h => Or.inr (by rw [← h]; decide)
  · exact fun _ _ _ h => by simp at h
  · exact notExhausted_process fun _ _ => Or.inl rfl

/-- The controller after the retry failed. -/
def webDropped : BaseController (WorkQueue Item) :=
  ⟨⟨[], ∅, ∅, ∅, webDelayed.workqueue.failures⟩, 1⟩

/-- The handler fails twice and the key is dropped with its count at one; then there is a new
event, and the key is dropped at its first failure. -/
theorem dropped_at_first_failure :
    ∃ tr, Run (controllerSystem Unit retriesOnce) retriesOnce tr webDropped ∧
      exits webKey tr = [.requeued, .dropped, .dropped] ∧
      numRequeues webDropped.workqueue (.string webKey) = 1 ∧
      ¬ ∀ t ∈ tr, t.label.Restores t.post := by
  have hdrop : (controllerSystem Unit retriesOnce).step webRetried
      (.process (fun _ => some ()) (.string webKey) .dropped) webDropped := rfl
  have hevent : (controllerSystem Unit retriesOnce).step webDropped (.enqueue webEvent)
      webRetried := rfl
  refine ⟨_, ((run_webFails.snoc hdrop).snoc hevent).snoc hdrop, rfl, rfl, fun hall => ?_⟩
  have hbudget := hall _ (List.mem_append_right _ (List.mem_singleton.mpr rfl)) _ _ _ rfl
    (by decide)
  exact absurd hbudget.1 (by decide)

/-! ### A budget that is spent -/

section Spending

variable {ε : Type} (c₀ : BaseController (WorkQueue Item)) {c : BaseController (WorkQueue Item)}
  {key : String}

/-- The key is all there is on the queue, and it is waiting for nothing. -/
structure Ready (c : BaseController (WorkQueue Item)) (key : String) : Prop where
  settled : c.workqueue.Settled
  queue : ∀ b, b ∈ c.workqueue.queue ↔ b = .string key

theorem Ready.get_eq (h : Ready c key) : ∃ q, c.workqueue.get = some (.string key, q) := by
  have hmem : Item.string key ∈ c.workqueue.queue := (h.queue _).mpr rfl
  cases hq : c.workqueue.queue with
  | nil =>
    rw [hq] at hmem
    exact absurd hmem List.not_mem_nil
  | cons x rest =>
    have hx : x = .string key := (h.queue x).mp (by rw [hq]; exact List.mem_cons_self)
    rw [WorkQueue.get, hq, hx]
    exact ⟨_, rfl⟩

/-- A handler that fails below the limit, and the delay after it: the key is ready again, with
one retry less. -/
theorem Ready.retry (h : Ready c key) (err : ε) (hleft : c.RetriesLeft key) :
    ∃ c₁ c₂, (controllerSystem ε c₀).step c (.process (fun _ => some err) (.string key) .requeued)
        c₁ ∧ (controllerSystem ε c₀).step c₁ .elapse c₂ ∧ Ready c₂ key := by
  obtain ⟨q, hget⟩ := h.get_eq
  obtain ⟨hdone, hmem⟩ := h.settled.done hget
  obtain ⟨hsettled, hback⟩ := hdone.retry (.string key)
  refine ⟨⟨(q.done (.string key)).addRateLimited (.string key), c.maxRetries⟩,
    ⟨((q.done (.string key)).addRateLimited (.string key)).elapse (.string key), c.maxRetries⟩,
    ?_, ⟨rfl, .string key, Finset.mem_insert_self .., rfl⟩, hsettled, ?_⟩
  · exact processNextWorkItem_of_get hget (BaseController.syncItem_requeued rfl
      ((retriesLeft_get hget).mpr hleft))
  · intro b
    rw [hback, hmem, h.queue]
    tauto

theorem Failing.append
    {tr : List (Transition (BaseController (WorkQueue Item)) (ControllerLabel ε))}
    {t : Transition (BaseController (WorkQueue Item)) (ControllerLabel ε)} (h : Failing key tr)
    (ht : ∀ handler exit, t.label = .process handler (.string key) exit → (handler key).isSome) :
    Failing key (tr ++ [t]) := by
  intro u hu
  rcases List.mem_append.mp hu with hu | hu
  · exact h u hu
  · obtain rfl := List.mem_singleton.mp hu
    exact ht

/-- **The budget can be spent.** From a key that is ready there is, for every number of
failures within its budget, a run in which its handlers fail that often and it is ready
again. -/
theorem Ready.exists_run (h : Ready c key) (hm : 0 < c.maxRetries) (err : ε) :
    ∀ n, n ≤ c.maxRetries.toNat - numRequeues c.workqueue (.string key) →
      ∃ tr c', Run (controllerSystem ε c₀) c tr c' ∧ Failing key tr ∧
        (exits key tr).length = n ∧ Ready c' key := by
  intro n
  induction n with
  | zero =>
    intro _
    exact ⟨[], c, .nil c, fun t ht => absurd ht List.not_mem_nil, rfl, h⟩
  | succ n ih =>
    intro hn
    obtain ⟨tr, c₁, hrun, hfail, hlength, hready⟩ := ih (by omega)
    obtain ⟨-, hcount, hmax⟩ := exits_of_failing hrun hm hfail
    -- the count says that a retry is left
    have hleft : c₁.RetriesLeft key := by
      refine (retriesLeft_iff (by rw [hmax]; exact hm)).mpr ?_
      rw [hcount, hmax, hlength]
      omega
    obtain ⟨c₂, c₃, hstep, helapse, hready'⟩ := hready.retry c₀ err hleft
    refine ⟨_, c₃, (hrun.snoc hstep).snoc helapse, (hfail.append ?_).append ?_, ?_, hready'⟩
    · rintro handler exit heq
      obtain ⟨rfl, -, -⟩ := ControllerLabel.process.inj heq
      rfl
    · rintro handler exit heq
      exact absurd heq (by simp)
    · rw [exits_append, exits_append]
      simp [ControllerLabel.exitOf, hlength]

/-- A key that is enqueued on an idle queue is ready. -/
theorem ready_enqueue (hsettled : c.workqueue.Settled) (hidle : c.workqueue.queue = []) {obj : Obj}
    (hobj : obj.queueKey = some key) : Ready (c.enqueue obj) key := by
  have henqueue : c.enqueue obj = ⟨c.workqueue.add (.string key), c.maxRetries⟩ := by
    rw [BaseController.enqueue, hobj]
    rfl
  rw [henqueue]
  refine ⟨hsettled.add _, fun b => ?_⟩
  rw [hsettled.mem_add, hidle]
  simp

/-- A handler that fails at the limit. -/
theorem Ready.drop (h : Ready c key) (err : ε) (hleft : ¬ c.RetriesLeft key) :
    ∃ c', (controllerSystem ε c₀).step c (.process (fun _ => some err) (.string key) .dropped)
      c' := by
  obtain ⟨q, hget⟩ := h.get_eq
  exact ⟨_, processNextWorkItem_of_get hget (BaseController.syncItem_dropped rfl
    (mt (retriesLeft_get hget).mp hleft))⟩

/-- **The budget is spent.** From an event of a key with a full budget, on an idle queue, a
handler that keeps failing gets the key put back `MaxRetries` times and then dropped. -/
theorem exists_run_to_drop (hm : 0 < c.maxRetries) (hsettled : c.workqueue.Settled)
    (hidle : c.workqueue.queue = []) {obj : Obj} (hobj : obj.queueKey = some key)
    (hbudget : FullBudget ε c (.string key)) (err : ε) :
    ∃ tr c', Run (controllerSystem ε c₀) (c.enqueue obj) tr c' ∧ Failing key tr ∧
      exits key tr = budgetExits c.maxRetries.toNat (c.maxRetries.toNat + 1) := by
  obtain ⟨hmax, hcounts⟩ := enqueue_counts c obj
  have hm' : 0 < (c.enqueue obj).maxRetries := by rw [hmax]; exact hm
  have hzero : numRequeues (c.enqueue obj).workqueue (.string key) = 0 := by
    rw [hcounts, hbudget.1]
  obtain ⟨tr, c₁, hrun, hfail, hlength, hready⟩ :=
    (ready_enqueue hsettled hidle hobj).exists_run c₀ hm' err c.maxRetries.toNat
      (by rw [hmax, hzero, Nat.sub_zero])
  obtain ⟨-, hcount, hmax₁⟩ := exits_of_failing hrun hm' hfail
  -- all retries are spent, so the next failure is the last one
  have hleft : ¬ c₁.RetriesLeft key := by
    rw [retriesLeft_iff (by rw [hmax₁]; exact hm'), hcount, hmax₁, hmax, hzero, hlength]
    omega
  obtain ⟨c', hdrop⟩ := hready.drop c₀ err hleft
  have hfail' : Failing key
      (tr ++ [⟨c₁, .process (fun _ => some err) (.string key) .dropped, c'⟩]) :=
    hfail.append fun handler exit heq => by
      obtain ⟨rfl, -, -⟩ := ControllerLabel.process.inj heq
      rfl
  have hexits := (exits_of_failing (hrun.snoc hdrop) hm' hfail').1
  refine ⟨_, c', hrun.snoc hdrop, hfail', ?_⟩
  rw [hmax, hzero, Nat.sub_zero] at hexits
  rw [hexits, exits_append]
  simp [ControllerLabel.exitOf, hlength]

end Spending

end EProxy
