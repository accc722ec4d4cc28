import EProxy.Utils.Collection

/-!
# `pkg/utils/set`: `IterUnion`

`IterUnion` calls a function on the members of a union until it returns false. It does so in
three ways: one set is walked directly; up to four are sorted by size, and a member is passed
over when one of the sets before has it; five and more share a set of what was seen. The
variables `stop` and `seen` are captured by the visitors and are state next to the one of the
callback, which may do what it likes with anything but the sets themselves.

All three are the same loop (`iterUnion_enumerates`): the callback is called on a fixed
enumeration of the union, without repetitions, up to the first false. `iterFrom_tracks` is the
rule that carries the argument, with an invariant for the captured variables.
-/

namespace EProxy

open Framework

/-! ### Captured variables -/

section Captured

variable {σ κ ε α : Type}

/-- A computation of the caller, beside captured variables that it does not touch. -/
def onCaller (x : Go σ ε α) : Go (σ × κ) ε α :=
  ⟨fun s => ((x.run s.1).1, ((x.run s.1).2, s.2))⟩

/-- A computation with variables of its own, which begin as `k` and end with it. -/
def withLocals (k : κ) (x : Go (σ × κ) ε α) : Go σ ε α :=
  ⟨fun s => ((x.run (s, k)).1, (x.run (s, k)).2.1)⟩

/-- Assign to the captured variables. -/
def setCaptured (f : κ → κ) : Go (σ × κ) ε Unit := Go.modify fun s => (s.1, f s.2)

end Captured

/-- How `sort.Slice` arranges sets by size, the biggest first; sets of one size come in any
order. -/
structure SizeOrder (T : Type) where
  sort : List (Typed T) → List (Typed T)
  perm : ∀ sets, (sort sets).Perm sets
  sorted : ∀ sets, (sort sets).Pairwise fun a b => b.items.length ≤ a.items.length

/-- Sorting by merging, one of the possible ways. -/
def SizeOrder.merge (T : Type) : SizeOrder T where
  sort sets := sets.mergeSort fun a b => b.items.length ≤ a.items.length
  perm sets := List.mergeSort_perm sets _
  sorted sets := by
    have h : (sets.mergeSort fun a b => b.items.length ≤ a.items.length).Pairwise fun a b =>
        decide (b.items.length ≤ a.items.length) :=
      List.pairwise_mergeSort (by simp only [decide_eq_true_eq]; omega)
        (by simp only [Bool.or_eq_true, decide_eq_true_eq]; omega) sets
    simpa using h

variable {T σ ε : Type} [DecidableEq T]

/-! ### `IterUnion` -/

/-- The visitor for a single set. -/
def singleVisitor (f : T → Go σ ε Bool) (item : T) : Go σ ε (Option (IterError ε)) := do
  if ← f item then pure none else pure (some .stopIteration)

/-- The visitor for the set at `i` of a few sets. -/
def fewVisitor (sets : List (Typed T)) (i : ℕ) (f : T → Go σ ε Bool) (item : T) :
    Go (σ × Bool) ε (Option (IterError ε)) := do
  if (sets.take i).any (·.contains item) then pure none
  else if ← onCaller (f item) then pure none
  else do
    setCaptured fun _ => true
    pure (some .stopIteration)

/-- The loop over a few sets, from the one at `i` on. -/
def iterFew (orders : ℕ → IterOrder T) (sets : List (Typed T)) (f : T → Go σ ε Bool) :
    ℕ → List (Typed T) → Go (σ × Bool) ε Unit
  | _, [] => pure ()
  | i, s₁ :: rest => do
    let _ ← s₁.iter (orders i) (fewVisitor sets i f)
    if (← Go.get).2 then pure () else iterFew orders sets f (i + 1) rest

/-- The visitor for the set at `i` of `n` sets; the captured variables are `stop` and
`seen`. -/
def manyVisitor (n i : ℕ) (f : T → Go σ ε Bool) (item : T) :
    Go (σ × Bool × Typed T) ε (Option (IterError ε)) := do
  if i ≠ 0 ∧ (← Go.get).2.2.contains item then pure none
  else if ← onCaller (f item) then do
    if i < n - 1 then setCaptured fun c => (c.1, c.2.add item)
    pure none
  else do
    setCaptured fun c => (true, c.2)
    pure (some .stopIteration)

/-- The loop over many sets, from the one at `i` on. -/
def iterMany (orders : ℕ → IterOrder T) (n : ℕ) (f : T → Go σ ε Bool) :
    ℕ → List (Typed T) → Go (σ × Bool × Typed T) ε Unit
  | _, [] => pure ()
  | i, s :: rest => do
    let _ ← s.iter (orders i) (manyVisitor n i f)
    if (← Go.get).2.1 then pure () else iterMany orders n f (i + 1) rest

/-- `IterUnion`. It returns the slice `sets` as it leaves it. -/
def iterUnion (sorting : SizeOrder T) (orders : ℕ → IterOrder T) (sets : List (Typed T))
    (f : T → Go σ ε Bool) : Go σ ε (List (Typed T)) :=
  match sets with
  | [] => pure sets
  | [s] => do
    let _ ← s.iter (orders 0) (singleVisitor f)
    pure sets
  | _ =>
    if sets.length < 5 then do
      let sorted := sorting.sort sets
      withLocals false (iterFew orders sorted f 0 sorted)
      pure sorted
    else do
      withLocals (false, Typed.new) (iterMany orders sets.length f 0 sets)
      pure sets

/-! ### The loop it is -/

/-- Call `f` on the items in turn, while it returns true; whether it always did. -/
def forWhile (f : T → Go σ ε Bool) : List T → Go σ ε Bool
  | [] => pure true
  | item :: rest => do
    if ← f item then forWhile f rest else pure false

/-- The members of the sets in the order of visit, each where it comes first. -/
def enumeration (orders : ℕ → IterOrder T) : ℕ → List (Typed T) → List (Typed T) → List T
  | _, _, [] => []
  | i, earlier, s :: rest =>
    ((orders i).visit s.items).filter (fun item => !earlier.any (·.contains item)) ++
      enumeration orders (i + 1) (earlier ++ [s]) rest

omit [DecidableEq T] in
theorem forWhile_append (f : T → Go σ ε Bool) (a b : List T) (st : σ) :
    (forWhile f (a ++ b)).run st =
      match (forWhile f a).run st with
      | (.ret true, st') => (forWhile f b).run st'
      | (.ret false, st') => (.ret false, st')
      | (.panic p, st') => (.panic p, st') := by
  induction a generalizing st with
  | nil => rfl
  | cons item rest ih =>
    rw [List.cons_append, forWhile, forWhile, Go.run_bind, Go.run_bind]
    rcases (f item).run st with ⟨(_ | _) | p, st'⟩
    · rfl
    · exact ih st'
    · rfl

/-! ### Visitors that keep to the loop -/

/-- A computation with captured variables follows one that returns a boolean: it does the same
to the state of the caller, returns `go` or `halt` for true or false, and leaves the captured
variables as `K` or `H` says. -/
def Tracks {κ α : Type} (o : Outcome ε Bool × σ) (r : Outcome ε α × σ × κ) (go halt : α)
    (K H : κ → Prop) : Prop :=
  match o with
  | (.ret true, st) => ∃ k, r = (.ret go, st, k) ∧ K k
  | (.ret false, st) => ∃ k, r = (.ret halt, st, k) ∧ H k
  | (.panic p, st) => ∃ k, r = (.panic p, st, k)

/-- **The rule for `Iter`.** The visitor passes over the items `skip` tells and follows `f` on
the others; `I l k` is what holds of the captured variables when `l` is still to be visited. -/
theorem iterFrom_tracks {κ : Type} {f : T → Go σ ε Bool}
    {visitor : T → Go (σ × κ) ε (Option (IterError ε))} (skip : T → Bool)
    (I : List T → κ → Prop) (H : κ → Prop)
    (hskip : ∀ {item rest k} (st : σ), skip item → I (item :: rest) k →
      (visitor item).run (st, k) = (.ret none, st, k) ∧ I rest k)
    (hvisit : ∀ {item rest k} (st : σ), ¬ skip item → I (item :: rest) k →
      Tracks ((f item).run st) ((visitor item).run (st, k)) none (some .stopIteration) (I rest) H)
    (set : Typed T) (items : List T) {k : κ} (hI : I items k) (st : σ) :
    Tracks ((forWhile f (items.filter fun item => !skip item)).run st)
      ((Typed.iterFrom visitor items set).run (st, k)) set set (I []) H := by
  induction items generalizing k st with
  | nil => exact ⟨k, rfl, hI⟩
  | cons item rest ih =>
    rw [Typed.iterFrom]
    by_cases hitem : skip item
    · obtain ⟨hrun, hrest⟩ := hskip st hitem hI
      rw [List.filter_cons_of_neg (by simp [hitem]), Go.run_bind_ret hrun]
      exact ih hrest st
    · have hstep := hvisit st hitem hI
      rw [List.filter_cons_of_pos (by simp [hitem]), forWhile, Go.run_bind]
      -- the callback returned true, returned false, or panicked
      rcases hf : (f item).run st with ⟨(_ | _) | p, st'⟩
      · rw [hf] at hstep
        obtain ⟨k', hrun, hk'⟩ := hstep
        rw [Go.run_bind_ret hrun]
        exact ⟨k', rfl, hk'⟩
      · rw [hf] at hstep
        obtain ⟨k', hrun, hk'⟩ := hstep
        rw [Go.run_bind_ret hrun]
        exact ih hk' st'
      · rw [hf] at hstep
        obtain ⟨k', hrun⟩ := hstep
        rw [Go.run_bind_panic hrun]
        exact ⟨k', rfl⟩

omit [DecidableEq T] in
/-- A loop over one more set, which ends the whole loop when the captured variables say so. -/
theorem tracks_bind {κ α : Type} (stop : κ → Bool) (go : α) (K : κ → Prop) {K' H : κ → Prop}
    {f : T → Go σ ε Bool} {a b : List T} {x : Go (σ × κ) ε α} {rest : Go (σ × κ) ε Unit}
    (hK : ∀ k, K k → stop k = false) (hH : ∀ k, H k → stop k = true) {st : σ} {k : κ}
    (hx : Tracks ((forWhile f a).run st) (x.run (st, k)) go go K H)
    (hrest : ∀ st' k', K k' → Tracks ((forWhile f b).run st') (rest.run (st', k')) () () K' H) :
    Tracks ((forWhile f (a ++ b)).run st)
      ((do let _ ← x; if stop (← Go.get).2 then pure () else rest : Go (σ × κ) ε Unit).run (st, k))
      () () K' H := by
  rw [forWhile_append]
  rcases ha : (forWhile f a).run st with ⟨(_ | _) | p, st'⟩
  · rw [ha] at hx
    obtain ⟨k', hrun, hk'⟩ := hx
    rw [Go.run_bind_ret hrun, Go.run_bind_ret (Go.run_get _), if_pos (hH k' hk')]
    exact ⟨k', rfl, hk'⟩
  · rw [ha] at hx
    obtain ⟨k', hrun, hk'⟩ := hx
    rw [Go.run_bind_ret hrun, Go.run_bind_ret (Go.run_get _),
      if_neg (by rw [hK k' hk']; exact Bool.false_ne_true)]
    exact hrest st' k' hk'
  · rw [ha] at hx
    obtain ⟨k', hrun⟩ := hx
    rw [Go.run_bind_panic hrun]
    exact ⟨k', rfl⟩

/-! ### A few sets -/

theorem fewVisitor_tracks (sets : List (Typed T)) (i : ℕ) (f : T → Go σ ε Bool) (item : T)
    (h : ¬ (sets.take i).any (·.contains item)) (st : σ) :
    Tracks ((f item).run st) ((fewVisitor sets i f item).run (st, false)) none
      (some .stopIteration) (· = false) (· = true) := by
  rw [fewVisitor, if_neg h, Go.run_bind]
  simp only [onCaller]
  rcases (f item).run st with ⟨(_ | _) | p, st'⟩
  · exact ⟨true, rfl, rfl⟩
  · exact ⟨false, rfl, rfl⟩
  · exact ⟨false, rfl⟩

theorem iterFew_tracks (orders : ℕ → IterOrder T) (f : T → Go σ ε Bool)
    (earlier rest : List (Typed T)) (st : σ) :
    Tracks ((forWhile f (enumeration orders earlier.length earlier rest)).run st)
      ((iterFew orders (earlier ++ rest) f earlier.length rest).run (st, false)) () ()
      (· = false) (· = true) := by
  induction rest generalizing earlier st with
  | nil => exact ⟨false, rfl, rfl⟩
  | cons s rest ih =>
    have htake : (earlier ++ s :: rest).take earlier.length = earlier := by simp
    have hnext : earlier ++ s :: rest = (earlier ++ [s]) ++ rest := by simp
    rw [enumeration, iterFew]
    refine tracks_bind (fun k => k) s (· = false) (fun k hk => hk) (fun k hk => hk) ?_
      fun st' k hk => ?_
    · refine iterFrom_tracks (fun item => earlier.any (·.contains item)) (fun _ k => k = false) _
        (fun {item _ k} st hskip hk => ⟨?_, hk⟩) (fun {item _ k} st hskip hk => ?_) s _ rfl st
      · rw [fewVisitor, htake, if_pos hskip]
        rfl
      · subst hk
        exact fewVisitor_tracks (earlier ++ s :: rest) _ f item (by rw [htake]; exact hskip) st
    · subst hk
      have h := ih (earlier ++ [s]) st'
      rw [List.length_append, List.length_singleton, ← hnext] at h
      exact h

/-! ### Many sets -/

/-- A member of one of the sets. -/
def InSome (sets : List (Typed T)) (x : T) : Prop := ∃ t ∈ sets, x ∈ t.items

theorem any_contains_iff (sets : List (Typed T)) (x : T) :
    sets.any (·.contains x) ↔ InSome sets x := by
  simp [Typed.contains, InSome]

/-- The captured variables while the set `s` is walked after `earlier`, with `l` still to be
visited. `seen` has the members of the earlier sets, nothing that is still to come, and what
was visited of `s`, if this is added at all. -/
structure SeenSoFar (earlier : List (Typed T)) (s : Typed T) (adds : Prop) (l : List T)
    (c : Bool × Typed T) : Prop where
  running : c.1 = false
  nodup : l.Nodup
  member : ∀ x ∈ l, x ∈ s.items
  before : ∀ x, InSome earlier x → x ∈ c.2.items
  only : ∀ x ∈ c.2.items, InSome earlier x ∨ x ∈ s.items ∧ x ∉ l
  visited : adds → ∀ x ∈ s.items, x ∉ l → x ∈ c.2.items

section Seen

variable {earlier : List (Typed T)} {s : Typed T} {adds : Prop} {item : T} {rest : List T}
  {c : Bool × Typed T}

/-- What the visitor passes over is what an earlier set has. -/
theorem SeenSoFar.skip_iff (h : SeenSoFar earlier s adds (item :: rest) c) :
    earlier.length ≠ 0 ∧ c.2.contains item ↔ InSome earlier item := by
  rw [Typed.contains, decide_eq_true_iff]
  constructor
  · rintro ⟨-, hseen⟩
    exact (h.only item hseen).resolve_right fun hin => hin.2 List.mem_cons_self
  · intro hin
    refine ⟨fun hnil => ?_, h.before item hin⟩
    obtain ⟨t, ht, -⟩ := hin
    rw [List.eq_nil_of_length_eq_zero hnil] at ht
    exact absurd ht List.not_mem_nil

omit [DecidableEq T] in
theorem SeenSoFar.only_tail (h : SeenSoFar earlier s adds (item :: rest) c) {x : T}
    (hx : x ∈ c.2.items) : InSome earlier x ∨ x ∈ s.items ∧ x ∉ rest := by
  refine (h.only x hx).imp_right fun hin => ⟨hin.1, fun hmem => hin.2 ?_⟩
  exact List.mem_cons_of_mem _ hmem

theorem SeenSoFar.skip (h : SeenSoFar earlier s adds (item :: rest) c)
    (hin : InSome earlier item) : SeenSoFar earlier s adds rest c where
  running := h.running
  nodup := h.nodup.of_cons
  member := fun x hx => h.member x (List.mem_cons_of_mem _ hx)
  before := h.before
  only := fun x hx => h.only_tail hx
  visited := by
    intro hadds x hx hrest
    by_cases heq : x = item
    · rw [heq]
      exact h.before item hin
    · exact h.visited hadds x hx (by simp [heq, hrest])

theorem SeenSoFar.visit [Decidable adds] (h : SeenSoFar earlier s adds (item :: rest) c) :
    SeenSoFar earlier s adds rest (if adds then (c.1, c.2.add item) else c) := by
  have htail : ∀ x ∈ rest, x ∈ s.items := fun x hx => h.member x (List.mem_cons_of_mem _ hx)
  split
  · next hadds =>
    refine ⟨h.running, h.nodup.of_cons, htail, fun x hx => ?_, fun x hx => ?_,
      fun _ x hx hrest => ?_⟩
    · exact (Typed.mem_add _ _ _).mpr (Or.inr (h.before x hx))
    · rcases (Typed.mem_add _ _ _).mp hx with rfl | hx
      · exact Or.inr ⟨h.member x List.mem_cons_self, (List.nodup_cons.mp h.nodup).1⟩
      · exact h.only_tail hx
    · by_cases heq : x = item
      · exact (Typed.mem_add _ _ _).mpr (Or.inl heq)
      · exact (Typed.mem_add _ _ _).mpr (Or.inr (h.visited hadds x hx (by simp [heq, hrest])))
  · next hadds =>
    exact ⟨h.running, h.nodup.of_cons, htail, h.before, fun x hx => h.only_tail hx,
      fun h => absurd h hadds⟩

/-- A member that no earlier set has is handed to the callback. -/
theorem manyVisitor_tracks (n : ℕ) (f : T → Go σ ε Bool)
    (h : SeenSoFar earlier s (earlier.length < n - 1) (item :: rest) c)
    (hskip : ¬ InSome earlier item) (st : σ) :
    Tracks ((f item).run st) ((manyVisitor n earlier.length f item).run (st, c)) none
      (some .stopIteration) (SeenSoFar earlier s (earlier.length < n - 1) rest)
      (fun c => c.1 = true) := by
  rw [manyVisitor, Go.run_bind_ret (Go.run_get (st, c)), if_neg (h.skip_iff.not.mpr hskip),
    Go.run_bind]
  simp only [onCaller]
  have hvisit := h.visit
  rcases (f item).run st with ⟨(_ | _) | p, st'⟩
  · exact ⟨(true, c.2), rfl, rfl⟩
  · by_cases hadds : earlier.length < n - 1
    · rw [if_pos hadds] at hvisit
      exact ⟨(c.1, c.2.add item), by simp [hadds]; rfl, hvisit⟩
    · rw [if_neg hadds] at hvisit
      exact ⟨c, by simp [hadds]; rfl, hvisit⟩
  · exact ⟨c, rfl⟩

end Seen

theorem iterMany_tracks (orders : ℕ → IterOrder T) (n : ℕ) (f : T → Go σ ε Bool)
    (earlier rest : List (Typed T)) (hn : n = earlier.length + rest.length)
    {c : Bool × Typed T} (hrunning : c.1 = false)
    (hseen : rest ≠ [] → ∀ x, x ∈ c.2.items ↔ InSome earlier x) (st : σ) :
    Tracks ((forWhile f (enumeration orders earlier.length earlier rest)).run st)
      ((iterMany orders n f earlier.length rest).run (st, c)) () () (fun c => c.1 = false)
      (fun c => c.1 = true) := by
  induction rest generalizing earlier c st with
  | nil => exact ⟨c, rfl, hrunning⟩
  | cons s rest ih =>
    have hseen := hseen (List.cons_ne_nil s rest)
    have hperm := (orders earlier.length).perm s.items
    rw [enumeration, iterMany]
    refine tracks_bind (fun c => c.1) s (SeenSoFar earlier s (earlier.length < n - 1) [])
      (fun _ hc => hc.running) (fun _ hc => hc) ?_ fun st' c' hc' => ?_
    · refine iterFrom_tracks (fun item => earlier.any (·.contains item))
        (SeenSoFar earlier s (earlier.length < n - 1)) _ (fun {item _ c} st hskip hc => ?_)
        (fun {item _ c} st hskip hc => ?_) s _ ?_ st
      · have hin := (any_contains_iff earlier item).mp hskip
        refine ⟨?_, hc.skip hin⟩
        rw [manyVisitor, Go.run_bind_ret (Go.run_get (st, c)), if_pos (hc.skip_iff.mpr hin)]
        rfl
      · exact manyVisitor_tracks n f hc ((any_contains_iff earlier item).not.mp hskip) st
      · -- nothing of `s` has been visited yet
        exact
          { running := hrunning
            nodup := hperm.nodup_iff.mpr s.nodup
            member := fun x hx => hperm.mem_iff.mp hx
            before := fun x hx => (hseen x).mpr hx
            only := fun x hx => Or.inl ((hseen x).mp hx)
            visited := fun _ x hx hvisit => absurd (hperm.mem_iff.mpr hx) hvisit }
    · have hlen : (earlier ++ [s]).length = earlier.length + 1 := by simp
      have hnext := ih (earlier ++ [s]) (by simp [hn]; omega) hc'.running (fun hne x => ?_) st'
      · rw [hlen] at hnext
        exact hnext
      · -- there is a next set, so what was visited of `s` has been added
        have hadds : earlier.length < n - 1 := by
          have hpos := List.length_pos_iff.mpr hne
          rw [List.length_cons] at hn
          omega
        have hsome : InSome (earlier ++ [s]) x ↔ InSome earlier x ∨ x ∈ s.items := by
          simp [InSome, or_and_right, exists_or]
        rw [hsome]
        constructor
        · intro hx
          exact (hc'.only x hx).imp_right And.left
        · rintro (hx | hx)
          · exact hc'.before x hx
          · exact hc'.visited hadds x hx List.not_mem_nil

/-! ### The enumeration -/

theorem mem_enumeration (orders : ℕ → IterOrder T) (i : ℕ) (earlier rest : List (Typed T)) (x : T) :
    x ∈ enumeration orders i earlier rest ↔ InSome rest x ∧ ¬ InSome earlier x := by
  induction rest generalizing i earlier with
  | nil => simp [enumeration, InSome]
  | cons s rest ih =>
    have hvisit : x ∈ (orders i).visit s.items ↔ x ∈ s.items := ((orders i).perm s.items).mem_iff
    have hcons : InSome (s :: rest) x ↔ x ∈ s.items ∨ InSome rest x := by simp [InSome]
    have hsnoc : InSome (earlier ++ [s]) x ↔ InSome earlier x ∨ x ∈ s.items := by
      simp [InSome, or_and_right, exists_or]
    rw [enumeration, List.mem_append, List.mem_filter, ih, hvisit, hcons, hsnoc, Bool.not_eq_true',
      ← Bool.not_eq_true, any_contains_iff]
    tauto

theorem nodup_enumeration (orders : ℕ → IterOrder T) (i : ℕ) (earlier rest : List (Typed T)) :
    (enumeration orders i earlier rest).Nodup := by
  induction rest generalizing i earlier with
  | nil => exact List.nodup_nil
  | cons s rest ih =>
    have hperm := (orders i).perm s.items
    rw [enumeration]
    refine List.nodup_append.mpr ⟨(hperm.nodup_iff.mpr s.nodup).filter _, ih _ _, ?_⟩
    -- what a later set contributes is not in `s`
    rintro x hx _ hlater rfl
    have hxs : x ∈ s.items := hperm.mem_iff.mp (List.mem_filter.mp hx).1
    exact ((mem_enumeration _ _ _ _ _).mp hlater).2 ⟨s, by simp, hxs⟩

/-! ### All three ways -/

theorem iterFrom_single (f : T → Go σ ε Bool) (set : Typed T) (items : List T) (st : σ) :
    (Typed.iterFrom (singleVisitor f) items set).run st =
      (forWhile f items >>= fun _ => pure set).run st := by
  induction items generalizing st with
  | nil => rfl
  | cons item rest ih =>
    rw [Typed.iterFrom, forWhile, Go.run_bind, Go.run_bind, Go.run_bind, singleVisitor, Go.run_bind]
    rcases (f item).run st with ⟨(_ | _) | p, st'⟩
    · rfl
    · exact ih st'
    · rfl

omit [DecidableEq T] in
/-- Seen from the caller, a computation that follows the loop is the loop. -/
theorem withLocals_of_tracks {κ α : Type} {f : T → Go σ ε Bool} {items : List T} {k : κ}
    {x : Go (σ × κ) ε Unit} {K H : κ → Prop} {st : σ}
    (h : Tracks ((forWhile f items).run st) (x.run (st, k)) () () K H) (a : α) :
    (withLocals k x >>= fun _ => pure a).run st =
      (forWhile f items >>= fun _ => pure a).run st := by
  rw [Go.run_bind, Go.run_bind, withLocals]
  rcases hf : (forWhile f items).run st with ⟨(_ | _) | p, st'⟩
  · rw [hf] at h
    obtain ⟨k', hrun, -⟩ := h
    simp only [hrun]
  · rw [hf] at h
    obtain ⟨k', hrun, -⟩ := h
    simp only [hrun]
  · rw [hf] at h
    obtain ⟨k', hrun⟩ := h
    simp only [hrun]

/-- **`IterUnion` is a loop over the union.** For every list of sets, every way of breaking ties
in sorting and every order of visiting the members of a set, there is an enumeration of the
union, each member once, such that for every callback, whatever it does to its state, returns
or panics with, `IterUnion` calls it on that enumeration in turn until it returns false; the
slice comes back with the same sets in it. -/
theorem iterUnion_enumerates (sorting : SizeOrder T) (orders : ℕ → IterOrder T)
    (sets : List (Typed T)) :
    ∃ (items : List T) (sets' : List (Typed T)), items.Nodup ∧
      (∀ x, x ∈ items ↔ ∃ s ∈ sets, x ∈ s.items) ∧ sets'.Perm sets ∧
      ∀ (f : T → Go σ ε Bool) (st : σ), (iterUnion sorting orders sets f).run st =
        (forWhile f items >>= fun _ => pure sets').run st := by
  have hmem : ∀ (l : List (Typed T)) x, x ∈ enumeration orders 0 [] l ↔ ∃ s ∈ l, x ∈ s.items := by
    intro l x
    rw [mem_enumeration]
    simp [InSome]
  match sets with
  | [] => exact ⟨[], [], List.nodup_nil, by simp, .refl _, fun f st => rfl⟩
  | [s] =>
    have hperm := (orders 0).perm s.items
    refine ⟨(orders 0).visit s.items, [s], hperm.nodup_iff.mpr s.nodup, ?_, .refl _, fun f st => ?_⟩
    · simp [hperm.mem_iff]
    · have h := iterFrom_single f s ((orders 0).visit s.items) st
      rw [iterUnion, Go.run_bind, Typed.iter, h, Go.run_bind, Go.run_bind]
      rcases (forWhile f ((orders 0).visit s.items)).run st with ⟨b | p, st'⟩
      · rfl
      · rfl
  | s₁ :: s₂ :: rest =>
    by_cases hfew : (s₁ :: s₂ :: rest).length < 5
    · have hsort := sorting.perm (s₁ :: s₂ :: rest)
      refine ⟨enumeration orders 0 [] (sorting.sort (s₁ :: s₂ :: rest)), _,
        nodup_enumeration _ _ _ _, fun x => ?_, hsort, fun f st => ?_⟩
      · rw [hmem]
        simp only [hsort.mem_iff]
      · simp only [iterUnion, if_pos hfew]
        exact withLocals_of_tracks (iterFew_tracks orders f [] _ st) _
    · refine ⟨enumeration orders 0 [] (s₁ :: s₂ :: rest), _, nodup_enumeration _ _ _ _,
        hmem _, .refl _, fun f st => ?_⟩
      simp only [iterUnion, if_neg hfew]
      exact withLocals_of_tracks (iterMany_tracks orders _ f [] _ (by simp) rfl
        (fun _ x => by simp [InSome, Typed.new]) st) _

end EProxy
