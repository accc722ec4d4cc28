import Mathlib.Data.List.Nodup
import Mathlib.Logic.Relation

/-!
# Scripts of atomic operations

A `Machine` has a memory and atomic operations on it. An operation is refused by
the machine (a deletion that finds no key, say), is failed by the environment, or
takes effect. `Machine.exec` runs a list of operations until one fails and keeps
a journal: every operation issued, the memory it met and the error it raised. The
memory between two operations, which a concurrent reader may see, is thus part of
the record.

The environment is a fault pattern `fault : ℕ → Option Err`: the error it forces
on the `n`-th operation of the journal, if any.

* `exec_eq_none_iff`: a script runs through exactly when the pattern spares it and
  the machine accepts it;
* `exec_mem`: the memory a script leaves is the fold of the operations that took
  effect;
* `exec_rule` is the induction over the remaining script, `exec_points` its
  instance for a predicate on memories that the operations of a script preserve: it
  holds at every point of the journal;
* `Leads` forgets the script and keeps the kind of its operations (`exec_leads`).
-/

namespace Framework

/-- A memory with atomic operations. -/
structure Machine (Mem Op Err : Type) where
  /-- The error an operation raises by itself, if any. -/
  refuse : Mem → Op → Option Err
  /-- The effect of an operation that raises none. -/
  apply : Mem → Op → Mem

/-- An issued operation, the memory it met and the error it raised. -/
structure Event (Mem Op Err : Type) where
  op : Op
  before : Mem
  err : Option Err

/-- A memory together with the journal of the operations issued so far. -/
structure Log (Mem Op Err : Type) where
  mem : Mem
  journal : List (Event Mem Op Err)

namespace Machine

variable {Mem Op Err : Type} (M : Machine Mem Op Err) (fault : ℕ → Option Err)

/-- The memory an event leaves: a failed operation changes nothing. -/
def after (ev : Event Mem Op Err) : Mem :=
  match ev.err with
  | none => M.apply ev.before ev.op
  | some _ => ev.before

/-- The error of the `n`-th operation: the one the pattern forces, else the one
the machine raises. -/
def verdict (n : ℕ) (m : Mem) (op : Op) : Option Err :=
  match fault n with
  | some e => some e
  | none => M.refuse m op

/-- Issue one operation. -/
def issue (st : Log Mem Op Err) (op : Op) : Option Err × Log Mem Op Err :=
  match M.verdict fault st.journal.length st.mem op with
  | some e => (some e, ⟨st.mem, st.journal ++ [⟨op, st.mem, some e⟩]⟩)
  | none => (none, ⟨M.apply st.mem op, st.journal ++ [⟨op, st.mem, none⟩]⟩)

/-- Issue the operations of a script in order, up to the first one that fails. -/
def exec (st : Log Mem Op Err) : List Op → Option Err × Log Mem Op Err
  | [] => (none, st)
  | op :: ops =>
    match M.issue fault st op with
    | (some e, st') => (some e, st')
    | (none, st') => exec st' ops

/-- The machine refuses no operation of the script. -/
def Accepts (m : Mem) : List Op → Prop
  | [] => True
  | op :: ops => M.refuse m op = none ∧ Accepts (M.apply m op) ops

/-- The pattern fails none of `k` operations from the `n`-th on. -/
def Spares (n k : ℕ) : Prop := ∀ i, n ≤ i → i < n + k → fault i = none

/-- The memory after all operations of a script took effect. -/
def fold (m : Mem) (ops : List Op) : Mem := ops.foldl M.apply m

variable {M fault} {st : Log Mem Op Err} {m : Mem}

@[simp] theorem exec_nil : M.exec fault st [] = (none, st) := rfl

theorem exec_cons_none {op : Op} {ops : List Op} {st' : Log Mem Op Err}
    (h : M.issue fault st op = (none, st')) :
    M.exec fault st (op :: ops) = M.exec fault st' ops := by
  rw [exec, h]

theorem exec_cons_some {op : Op} {ops : List Op} {st' : Log Mem Op Err} {e : Err}
    (h : M.issue fault st op = (some e, st')) :
    M.exec fault st (op :: ops) = (some e, st') := by
  rw [exec, h]

/-- A script in two parts: the second one runs when the first one went through. -/
theorem exec_append (ops₁ ops₂ : List Op) :
    M.exec fault st (ops₁ ++ ops₂) =
      match M.exec fault st ops₁ with
      | (none, st') => M.exec fault st' ops₂
      | (some e, st') => (some e, st') := by
  induction ops₁ generalizing st with
  | nil => rfl
  | cons op ops₁ ih =>
    rw [List.cons_append]
    rcases hi : M.issue fault st op with ⟨_ | e, st'⟩
    · rw [exec_cons_none hi, exec_cons_none hi, ih]
    · rw [exec_cons_some hi, exec_cons_some hi]

@[simp] theorem fold_nil : M.fold m [] = m := rfl

@[simp] theorem fold_cons (op : Op) (ops : List Op) :
    M.fold m (op :: ops) = M.fold (M.apply m op) ops := rfl

theorem fold_append (ops₁ ops₂ : List Op) :
    M.fold m (ops₁ ++ ops₂) = M.fold (M.fold m ops₁) ops₂ :=
  List.foldl_append ..

/-! ### One operation -/

theorem verdict_eq_none_iff {n : ℕ} {op : Op} :
    M.verdict fault n m op = none ↔ fault n = none ∧ M.refuse m op = none := by
  unfold verdict
  cases h : fault n with
  | none => simp
  | some e => simp

theorem issue_none (h : M.verdict fault st.journal.length st.mem op = none) :
    M.issue fault st op = (none, ⟨M.apply st.mem op, st.journal ++ [⟨op, st.mem, none⟩]⟩) := by
  rw [issue, h]

theorem issue_some {e : Err} (h : M.verdict fault st.journal.length st.mem op = some e) :
    M.issue fault st op = (some e, ⟨st.mem, st.journal ++ [⟨op, st.mem, some e⟩]⟩) := by
  rw [issue, h]

/-! ### Whole scripts -/

/-- **When a script runs through.** -/
theorem exec_eq_none_iff (M : Machine Mem Op Err) (fault : ℕ → Option Err)
    (st : Log Mem Op Err) (ops : List Op) :
    (M.exec fault st ops).1 = none ↔
      Spares fault st.journal.length ops.length ∧ M.Accepts st.mem ops := by
  induction ops generalizing st with
  | nil =>
    refine iff_of_true rfl ⟨fun i h₁ h₂ => ?_, trivial⟩
    rw [List.length_nil] at h₂
    omega
  | cons op ops ih =>
    cases hv : M.verdict fault st.journal.length st.mem op with
    | some e =>
      rw [exec_cons_some (issue_some hv)]
      refine iff_of_false (by simp) ?_
      rintro ⟨hsp, hacc⟩
      have hn : M.verdict fault st.journal.length st.mem op = none :=
        verdict_eq_none_iff.mpr ⟨hsp _ (Nat.le_refl _) (by simp), hacc.1⟩
      rw [hn] at hv
      exact absurd hv (by simp)
    | none =>
      obtain ⟨hf, hr⟩ := verdict_eq_none_iff.mp hv
      rw [exec_cons_none (issue_none hv), ih]
      -- the rest of the script starts one entry later in the pattern
      refine and_congr ?_ ⟨fun h => ⟨hr, h⟩, fun h => h.2⟩
      simp only [Spares, List.length_append, List.length_cons, List.length_nil]
      constructor
      · intro h i h₁ h₂
        by_cases hi : i = st.journal.length
        · rw [hi]; exact hf
        · exact h i (by omega) (by omega)
      · intro h i h₁ h₂
        exact h i (by omega) (by omega)

/-- The memory of a script that went through. -/
theorem exec_mem {ops : List Op} (h : (M.exec fault st ops).1 = none) :
    (M.exec fault st ops).2.mem = M.fold st.mem ops := by
  induction ops generalizing st with
  | nil => rfl
  | cons op ops ih =>
    cases hv : M.verdict fault st.journal.length st.mem op with
    | some e =>
      rw [exec_cons_some (issue_some hv)] at h
      exact absurd h (by simp)
    | none =>
      rw [exec_cons_none (issue_none hv)] at h ⊢
      exact ih h

/-- The journal of a script that went through lists its operations. -/
theorem exec_journal_ops {ops : List Op} (h : (M.exec fault st ops).1 = none) :
    (M.exec fault st ops).2.journal.map Event.op = st.journal.map Event.op ++ ops := by
  induction ops generalizing st with
  | nil => rw [exec_nil, List.append_nil]
  | cons op ops ih =>
    cases hv : M.verdict fault st.journal.length st.mem op with
    | some e =>
      rw [exec_cons_some (issue_some hv)] at h
      exact absurd h (by simp)
    | none =>
      rw [exec_cons_none (issue_none hv)] at h ⊢
      rw [ih h, List.map_append, List.append_assoc]
      rfl

theorem exec_journal_length {ops : List Op} (h : (M.exec fault st ops).1 = none) :
    (M.exec fault st ops).2.journal.length = st.journal.length + ops.length := by
  have hlen := congrArg List.length (exec_journal_ops h)
  simpa using hlen

/-- A script of operations that are never refused. -/
theorem accepts_of_forall {ops : List Op} (h : ∀ op ∈ ops, ∀ m, M.refuse m op = none) (m : Mem) :
    M.Accepts m ops := by
  induction ops generalizing m with
  | nil => trivial
  | cons op ops ih =>
    exact ⟨h op List.mem_cons_self m, ih (fun op' h' => h op' (List.mem_cons_of_mem _ h')) _⟩

/-- A script only extends the journal. -/
theorem mem_exec_journal {ev : Event Mem Op Err} (h : ev ∈ st.journal) (ops : List Op) :
    ev ∈ (M.exec fault st ops).2.journal := by
  induction ops generalizing st with
  | nil => exact h
  | cons op ops ih =>
    cases hv : M.verdict fault st.journal.length st.mem op with
    | some e =>
      rw [exec_cons_some (issue_some hv)]
      exact List.mem_append_left _ h
    | none =>
      rw [exec_cons_none (issue_none hv)]
      exact ih (List.mem_append_left _ h)

/-- The journal holds a failed operation exactly when it held one before or the
script reports an error. -/
theorem exists_failed_iff (M : Machine Mem Op Err) (fault : ℕ → Option Err)
    (st : Log Mem Op Err) (ops : List Op) :
    (∃ ev ∈ (M.exec fault st ops).2.journal, ev.err ≠ none) ↔
      (∃ ev ∈ st.journal, ev.err ≠ none) ∨ (M.exec fault st ops).1 ≠ none := by
  induction ops generalizing st with
  | nil => simp
  | cons op ops ih =>
    cases hv : M.verdict fault st.journal.length st.mem op with
    | some e =>
      rw [exec_cons_some (issue_some hv)]
      exact iff_of_true ⟨⟨op, st.mem, some e⟩, by simp, by simp⟩ (Or.inr (by simp))
    | none =>
      rw [exec_cons_none (issue_none hv), ih]
      simp [or_and_right, exists_or]

/-- A script started without failures reports none exactly when its journal holds
none. -/
theorem exec_clean_iff (M : Machine Mem Op Err) (fault : ℕ → Option Err)
    {st : Log Mem Op Err} (hst : ∀ ev ∈ st.journal, ev.err = none) (ops : List Op) :
    (∀ ev ∈ (M.exec fault st ops).2.journal, ev.err = none) ↔ (M.exec fault st ops).1 = none := by
  have hfailed := exists_failed_iff M fault st ops
  constructor
  · intro hclean
    by_contra hne
    obtain ⟨ev, hev, herr⟩ := hfailed.mpr (Or.inr hne)
    exact herr (hclean ev hev)
  · intro hnone ev hev
    by_contra herr
    rcases hfailed.mp ⟨ev, hev, herr⟩ with ⟨ev', hev', herr'⟩ | hne
    · exact herr' (hst ev' hev')
    · exact hne hnone

/-- **The journal rule.** `J m ops` is what is known of the memory `m` while the
script `ops` remains to be run. When each operation finds `Q` and hands `J` on to
the rest of the script, every event the script adds met `Q`, and the events
without an error were not refused. -/
theorem exec_rule (M : Machine Mem Op Err) (fault : ℕ → Option Err)
    (st : Log Mem Op Err) (ops : List Op) (J : Mem → List Op → Prop) (Q : Op → Mem → Prop)
    (hstep : ∀ m op ops, J m (op :: ops) →
      Q op m ∧ (M.refuse m op = none → J (M.apply m op) ops))
    (hJ : J st.mem ops) :
    ∀ ev ∈ (M.exec fault st ops).2.journal, ev ∈ st.journal ∨
      (Q ev.op ev.before ∧ (ev.err = none → M.refuse ev.before ev.op = none)) := by
  -- on the script, from any log: `J` holds of the memory and what is left to run
  induction ops generalizing st with
  | nil => exact fun ev hev => Or.inl hev
  | cons op ops ih =>
    obtain ⟨hQ, hnext⟩ := hstep _ _ _ hJ
    cases hv : M.verdict fault st.journal.length st.mem op with
    | some e =>
      rw [exec_cons_some (issue_some hv)]
      intro ev hev
      rcases List.mem_append.mp hev with hev | hev
      · exact Or.inl hev
      · obtain rfl := List.mem_singleton.mp hev
        exact Or.inr ⟨hQ, fun h => absurd h (by simp)⟩
    | none =>
      obtain ⟨-, hr⟩ := verdict_eq_none_iff.mp hv
      rw [exec_cons_none (issue_none hv)]
      intro ev hev
      rcases ih _ (hnext hr) ev hev with hev | hev
      · rcases List.mem_append.mp hev with hev | hev
        · exact Or.inl hev
        · obtain rfl := List.mem_singleton.mp hev
          exact Or.inr ⟨hQ, fun _ => hr⟩
      · exact Or.inr hev

/-- A predicate on memories that the operations of a script preserve survives the
script, wherever it stops. -/
theorem exec_invariant {I : Mem → Prop} {ops : List Op}
    (hstep : ∀ op ∈ ops, ∀ m, I m → I (M.apply m op)) (h0 : I st.mem) :
    I (M.exec fault st ops).2.mem := by
  induction ops generalizing st with
  | nil => exact h0
  | cons op ops ih =>
    cases hv : M.verdict fault st.journal.length st.mem op with
    | some e =>
      rw [exec_cons_some (issue_some hv)]
      exact h0
    | none =>
      rw [exec_cons_none (issue_none hv)]
      exact ih (fun op' h => hstep op' (List.mem_cons_of_mem _ h))
        (hstep op List.mem_cons_self _ h0)

/-- **Every point of a script.** A predicate on memories that the operations of a
script preserve holds before and after every event the script adds. -/
theorem exec_points {I : Mem → Prop} {ops : List Op}
    (hstep : ∀ op ∈ ops, ∀ m, I m → I (M.apply m op)) (h0 : I st.mem) :
    ∀ ev ∈ (M.exec fault st ops).2.journal, ev ∈ st.journal ∨
      (I ev.before ∧ I (M.after ev)) := by
  intro ev hev
  -- `I` is what is known of the memory, whatever is left of the script
  have hrule := exec_rule M fault st ops
    (fun m rest => I m ∧ ∀ op ∈ rest, ∀ m, I m → I (M.apply m op))
    (fun op m => I m ∧ I (M.apply m op))
    (fun m op rest hJ => ⟨⟨hJ.1, hJ.2 op List.mem_cons_self m hJ.1⟩,
      fun _ => ⟨hJ.2 op List.mem_cons_self m hJ.1,
        fun op' h => hJ.2 op' (List.mem_cons_of_mem _ h)⟩⟩)
    ⟨h0, hstep⟩ ev hev
  refine hrule.imp_right fun ⟨⟨hb, ha⟩, _⟩ => ⟨hb, ?_⟩
  unfold after
  cases ev.err with
  | none => exact ha
  | some e => exact hb

/-! ### Memories in reach

What a script can do, without the script: the memories that operations of a kind lead to. -/

/-- One operation of a kind leads from `m` to `m'`. -/
def Moves (M : Machine Mem Op Err) (P : Op → Prop) (m m' : Mem) : Prop :=
  ∃ op, P op ∧ m' = M.apply m op

/-- Operations of a kind lead from `m` to `m'`. -/
def Leads (M : Machine Mem Op Err) (P : Op → Prop) : Mem → Mem → Prop :=
  Relation.ReflTransGen (M.Moves P)

variable {P : Op → Prop}

/-- The invariant rule for memories in reach. -/
theorem Leads.invariant {I : Mem → Prop} {m' : Mem} (h : M.Leads P m m') (h0 : I m)
    (hstep : ∀ op m, P op → I m → I (M.apply m op)) : I m' := by
  induction h with
  | refl => exact h0
  | tail _ hmove ih =>
    obtain ⟨op, hop, rfl⟩ := hmove
    exact hstep op _ hop ih

/-- A script of operations of a kind leads to everything it goes through. -/
theorem exec_leads (M : Machine Mem Op Err) (fault : ℕ → Option Err) (st : Log Mem Op Err)
    {ops : List Op} (hops : ∀ op ∈ ops, P op) :
    M.Leads P st.mem (M.exec fault st ops).2.mem ∧
    ∀ ev ∈ (M.exec fault st ops).2.journal, ev ∈ st.journal ∨ M.Leads P st.mem (M.after ev) := by
  have hstep : ∀ op ∈ ops, ∀ m, M.Leads P st.mem m → M.Leads P st.mem (M.apply m op) :=
    fun op hop m hm => hm.tail ⟨op, hops op hop, rfl⟩
  refine ⟨exec_invariant hstep .refl, fun ev hev => ?_⟩
  exact (exec_points hstep .refl ev hev).imp_right And.right

end Machine

end Framework
