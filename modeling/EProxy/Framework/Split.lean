import Mathlib.Data.List.Infix

/-!
# Splitting at a separator

`splitSeq sep s` cuts `s` at the occurrences of the sequence `sep`, found from left to right
and not overlapping, as `strings.Split` does. A piece therefore ends at the first occurrence
of the separator, also when a later one overlaps it; `splitSeq_eq_pair_iff` says when there
are exactly two pieces.

For a separator of one element `List.splitOn` does the same. The second part is about texts
that have both: fields between single separators, one of which is a field `t`. The sequence
of `t` with a separator on each side occurs in such a text exactly where `t` is a field other
than the first and the last (`bracketed_infix_intercalate_iff`).
-/

namespace Framework

variable {α : Type}

/-- An occurrence of `sep` begins with all of `sep` but the last element. -/
theorem dropLast_occurrence (sep p r : List α) : p ++ sep.dropLast <+: p ++ sep ++ r := by
  rw [List.append_assoc, List.prefix_append_right_inj]
  exact List.IsPrefix.trans ( List.dropLast_prefix sep) (List.prefix_append sep r)

section Seq

variable [DecidableEq α]

/-- The first piece and the other pieces; `k` elements of a separator are still to be
dropped. -/
def splitSeqFrom (sep : List α) : ℕ → List α → List α × List (List α)
  | _, [] => ([], [])
  | k + 1, _ :: s => splitSeqFrom sep k s
  | 0, a :: s =>
    if sep <+: a :: s then
      let r := splitSeqFrom sep (sep.length - 1) s
      ([], r.1 :: r.2)
    else
      let r := splitSeqFrom sep 0 s
      (a :: r.1, r.2)

/-- The pieces of `s` between the occurrences of `sep`. -/
def splitSeq (sep s : List α) : List (List α) :=
  (splitSeqFrom sep 0 s).1 :: (splitSeqFrom sep 0 s).2

variable {sep s p r : List α}

theorem splitSeqFrom_drop (sep u s : List α) :
    splitSeqFrom sep u.length (u ++ s) = splitSeqFrom sep 0 s := by
  induction u with
  | nil => rfl
  | cons a u ih => exact ih

theorem splitSeq_of_absent (h : ¬ sep <:+: s) : splitSeq sep s = [s] := by
  have hfrom : splitSeqFrom sep 0 s = (s, []) := by
    induction s with
    | nil => rfl
    | cons a s ih =>
      rw [List.infix_cons_iff, not_or] at h
      rw [splitSeqFrom, if_neg h.1, ih h.2]
  rw [splitSeq, hfrom]

/-- The separator is found where it occurs first. -/
theorem splitSeq_append (hsep : sep ≠ []) (h : ¬ sep <:+: p ++ sep.dropLast) :
    splitSeq sep (p ++ sep ++ r) = p :: splitSeq sep r := by
  have hfrom : splitSeqFrom sep 0 (p ++ sep ++ r) = (p, splitSeq sep r) := by
    induction p with
    | nil =>
      obtain ⟨a, t, rfl⟩ := List.exists_cons_of_ne_nil hsep
      have hhead : a :: t <+: a :: (t ++ r) := List.prefix_append (a :: t) r
      rw [List.nil_append, List.cons_append, splitSeqFrom, if_pos hhead]
      have hdrop := splitSeqFrom_drop (a :: t) t r
      simp only [List.length_cons, Nat.add_sub_cancel, hdrop]
      rfl
    | cons b p ih =>
      -- an occurrence at the very beginning would not reach the end of the first one
      have hhead : ¬ sep <+: b :: (p ++ sep ++ r) := by
        intro hpre
        have hocc := dropLast_occurrence sep (b :: p) r
        refine h (List.prefix_of_prefix_length_le hpre hocc ?_).isInfix
        have hpos := List.length_pos_iff.mpr hsep
        rw [List.length_append, List.length_cons, List.length_dropLast]
        omega
      have hrest : ¬ sep <:+: p ++ sep.dropLast := fun hin => h (List.infix_cons hin)
      rw [List.cons_append, List.cons_append, splitSeqFrom, if_neg hhead, ih hrest]
  rw [splitSeq, hfrom]

/-- A sequence that occurs has a first occurrence. -/
theorem exists_first_of_infix (hsep : sep ≠ []) (h : sep <:+: s) :
    ∃ p r, s = p ++ sep ++ r ∧ ¬ sep <:+: p ++ sep.dropLast := by
  induction s with
  | nil => exact absurd (List.infix_nil.mp h) hsep
  | cons a s ih =>
    by_cases hpre : sep <+: a :: s
    · obtain ⟨r, hr⟩ := hpre
      refine ⟨[], r, hr.symm, fun hin => ?_⟩
      have hle := hin.length_le
      have hpos := List.length_pos_iff.mpr hsep
      rw [List.nil_append, List.length_dropLast] at hle
      omega
    · obtain ⟨p, r, rfl, hp⟩ := ih ((List.infix_cons_iff.mp h).resolve_left hpre)
      refine ⟨a :: p, r, rfl, fun hin => ?_⟩
      rcases List.infix_cons_iff.mp hin with hpre' | hin'
      · exact hpre (hpre'.trans (dropLast_occurrence sep (a :: p) r))
      · exact hp hin'

theorem splitSeq_eq_singleton_iff (hsep : sep ≠ []) :
    splitSeq sep s = [p] ↔ p = s ∧ ¬ sep <:+: s := by
  constructor
  · intro h
    by_cases hin : sep <:+: s
    · obtain ⟨q, r, rfl, hq⟩ := exists_first_of_infix hsep hin
      rw [splitSeq_append hsep hq] at h
      exact absurd (List.cons.inj h).2 (List.cons_ne_nil _ _)
    · rw [splitSeq_of_absent hin] at h
      exact ⟨(List.cons.inj h).1.symm, hin⟩
  · rintro ⟨rfl, hin⟩
    exact splitSeq_of_absent hin

/-- **Exactly two pieces.** -/
theorem splitSeq_eq_pair_iff (hsep : sep ≠ []) :
    splitSeq sep s = [p, r] ↔
      s = p ++ sep ++ r ∧ ¬ sep <:+: p ++ sep.dropLast ∧ ¬ sep <:+: r := by
  constructor
  · intro h
    by_cases hin : sep <:+: s
    · obtain ⟨q, t, rfl, hq⟩ := exists_first_of_infix hsep hin
      rw [splitSeq_append hsep hq] at h
      obtain ⟨rfl, hrest⟩ := List.cons.inj h
      obtain ⟨rfl, hr⟩ := (splitSeq_eq_singleton_iff hsep).mp hrest
      exact ⟨rfl, hq, hr⟩
    · rw [splitSeq_of_absent hin] at h
      exact absurd (List.cons.inj h).2.symm (List.cons_ne_nil _ _)
  · rintro ⟨rfl, hp, hr⟩
    rw [splitSeq_append hsep hp, splitSeq_of_absent hr]

end Seq

/-! ### Fields between single separators -/

section Fields

variable {x : α} {t : List α} {fields : List (List α)}

theorem intercalate_append {a b : List (List α)} (ha : a ≠ []) (hb : b ≠ []) :
    [x].intercalate (a ++ b) = [x].intercalate a ++ x :: [x].intercalate b := by
  induction a with
  | nil => exact absurd rfl ha
  | cons f a ih =>
    by_cases hnil : a = []
    · subst hnil
      rw [List.cons_append, List.nil_append, List.intercalate_cons_of_ne_nil hb,
        List.intercalate_singleton, List.append_assoc]
      rfl
    · rw [List.cons_append, List.intercalate_cons_of_ne_nil (by simp [hnil]), ih hnil,
        List.intercalate_cons_of_ne_nil hnil]
      simp

/-- Lines that each end in a separator. -/
theorem intercalate_concat_nil (lines : List (List α)) :
    [x].intercalate (lines ++ [[]]) = lines.flatMap fun line => line ++ [x] := by
  induction lines with
  | nil => rfl
  | cons line lines ih =>
    rw [List.cons_append, List.intercalate_cons_of_ne_nil (by simp), ih, List.flatMap_cons]

theorem not_mem_intercalate {y : α} (hxy : y ≠ x) (h : ∀ f ∈ fields, y ∉ f) :
    y ∉ [x].intercalate fields := by
  induction fields with
  | nil => exact List.not_mem_nil
  | cons f rest ih =>
    obtain ⟨hf, hrest⟩ := List.forall_mem_cons.mp h
    by_cases hnil : rest = []
    · rw [hnil, List.intercalate_singleton]
      exact hf
    · rw [List.intercalate_cons_of_ne_nil hnil]
      simp [hf, hxy, ih hrest]

variable [DecidableEq α]

theorem splitOn_of_not_mem {s : List α} (h : x ∉ s) : s.splitOn x = [s] := by
  have hpieces : List.splitOn x ([x].intercalate [s]) = [s] :=
    List.splitOn_intercalate x (by simpa using h) (by simp)
  rwa [List.intercalate_singleton] at hpieces

/-- The pieces have no separator in them. -/
theorem not_mem_of_mem_splitOn {s f : List α} (h : f ∈ s.splitOn x) : x ∉ f := by
  -- by induction on the length, one piece at a time
  induction hn : s.length using Nat.strong_induction_on generalizing s with
  | h n ih =>
    by_cases hx : x ∈ s
    · obtain ⟨u, v, rfl, hu⟩ := List.eq_append_cons_of_mem hx
      rw [List.splitOn_append_cons_self, splitOn_of_not_mem hu] at h
      rcases List.mem_append.mp h with h | h
      · rw [List.mem_singleton.mp h]
        exact hu
      · refine ih v.length ?_ h rfl
        rw [List.length_append, List.length_cons] at hn
        omega
    · rw [splitOn_of_not_mem hx] at h
      rw [List.mem_singleton.mp h]
      exact hx

/-- **Where a bracketed field occurs.** -/
theorem bracketed_infix_intercalate_iff (hne : fields ≠ []) (hx : ∀ f ∈ fields, x ∉ f)
    (ht : x ∉ t) :
    x :: (t ++ [x]) <:+: [x].intercalate fields ↔
      ∃ a b, a ≠ [] ∧ b ≠ [] ∧ fields = a ++ t :: b := by
  constructor
  · rintro ⟨u, v, huv⟩
    refine ⟨u.splitOn x, v.splitOn x, List.splitOn_ne_nil x u, List.splitOn_ne_nil x v, ?_⟩
    have htext : [x].intercalate fields = u ++ x :: (t ++ x :: v) := by
      rw [← huv]
      simp
    rw [← List.splitOn_intercalate x hx hne, htext, List.splitOn_append_cons_self,
      List.splitOn_append_cons_self, splitOn_of_not_mem ht]
    rfl
  · rintro ⟨a, b, ha, hb, rfl⟩
    refine ⟨[x].intercalate a, [x].intercalate b, ?_⟩
    rw [intercalate_append ha (by simp), List.intercalate_cons_of_ne_nil hb]
    simp

/-- The same when the field itself follows the text. -/
theorem bracketed_infix_intercalate_append_iff (hne : fields ≠ []) (hx : ∀ f ∈ fields, x ∉ f)
    (ht : x ∉ t) :
    x :: (t ++ [x]) <:+: [x].intercalate fields ++ x :: t ↔ t ∈ fields.tail := by
  have htext : [x].intercalate fields ++ x :: t = [x].intercalate (fields ++ [t]) := by
    rw [intercalate_append hne (by simp), List.intercalate_singleton]
  rw [htext, bracketed_infix_intercalate_iff (by simp)
      (by simpa [or_imp, forall_and] using ⟨hx, ht⟩)
    ht]
  constructor
  · rintro ⟨a, b, ha, hb, heq⟩
    obtain ⟨f, a, rfl⟩ := List.exists_cons_of_ne_nil ha
    -- the last field is `t`, so the one in the middle is among `fields`
    obtain ⟨b, last, rfl⟩ := List.eq_nil_or_concat b |>.resolve_left hb
    have hcut : fields ++ [t] = (f :: a ++ t :: b) ++ [last] := by
      rw [heq]
      simp
    rw [(List.append_inj' hcut rfl).1]
    simp
  · intro hmem
    obtain ⟨f, rest, rfl⟩ := List.exists_cons_of_ne_nil hne
    obtain ⟨a, b, hab⟩ := List.append_of_mem hmem
    refine ⟨f :: a, b ++ [t], by simp, by simp, ?_⟩
    rw [List.tail_cons] at hab
    rw [hab]
    simp

end Fields

end Framework
