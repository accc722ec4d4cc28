import Mathlib.Data.Nat.Digits.Defs
import Mathlib.Tactic.Ring

/-!
# `strconv.ParseInt`, base 10 and 64 bits

The numbers of a mount table are read with `strconv.ParseInt(s, 10, 64)`, which takes the sign
off and hands the rest to `ParseUint`. The latter reads digits until one of them is none, which
is a syntax error, or until the number does not fit into 64 bits, which is a range error even
if the rest is no number at all. `parseInt_eq_ok_iff` says what is accepted: the decimal
numerals, signed or not and with any number of leading zeros, of the numbers of an `int64`.

`Atoi` is the same function where `int` has 64 bits. The API machinery drops its error and takes
the number that comes along with it, zero for a text that is no numeral unless it overflows
before it stops being one (`atoi_of_not_numeral`).
-/

namespace EProxy

/-- A Go string, or what is read from a file. -/
abbrev Bytes := List UInt8

namespace Strconv

/-! ### The functions -/

/-- `ErrSyntax` and `ErrRange`. -/
inductive NumErr where
  | errSyntax
  | errRange
  deriving DecidableEq

/-- `NumError` of `ParseInt`. -/
structure NumError where
  num : Bytes
  err : NumErr
  deriving DecidableEq

/-- `'+'`. -/
def plus : UInt8 := 43

/-- `'-'`. -/
def minus : UInt8 := 45

/-- A byte from `'0'` to `'9'`. -/
def IsDigit (c : UInt8) : Prop := 48 ≤ c.toNat ∧ c.toNat ≤ 57

instance (c : UInt8) : Decidable (IsDigit c) := inferInstanceAs (Decidable (_ ∧ _))

/-- The value of a digit. -/
def digitValue (c : UInt8) : ℕ := c.toNat - 48

/-- The largest `uint64`, and the smallest number that overflows when multiplied by 10. -/
def maxUint64 : ℕ := 2 ^ 64 - 1

def cutoffUint64 : ℕ := maxUint64 / 10 + 1

/-- The loop of `ParseUint`: `n` is the value of the digits read so far. -/
def parseUintFrom (n : ℕ) : Bytes → ℕ × Option NumErr
  | [] => (n, none)
  | c :: rest =>
    if IsDigit c then
      if cutoffUint64 ≤ n then (maxUint64, some .errRange)
      else if maxUint64 < n * 10 + digitValue c then (maxUint64, some .errRange)
      else parseUintFrom (n * 10 + digitValue c) rest
    else (0, some .errSyntax)

/-- `ParseUint`. -/
def parseUint (s : Bytes) : ℕ × Option NumErr :=
  if s = [] then (0, some .errSyntax) else parseUintFrom 0 s

/-- The first number past those of an `int64`. -/
def cutoffInt64 : ℕ := 2 ^ 63

/-- The end of `ParseInt`, where the range is checked. -/
def toInt64 (s0 : Bytes) (neg : Bool) (un : ℕ) : Except NumError ℤ :=
  if neg = false ∧ cutoffInt64 ≤ un then .error ⟨s0, .errRange⟩
  else if neg = true ∧ cutoffInt64 < un then .error ⟨s0, .errRange⟩
  else .ok (if neg then -(un : ℤ) else un)

/-- The part of `ParseInt` after the sign. -/
def parseSigned (s0 : Bytes) (neg : Bool) (s : Bytes) : Except NumError ℤ :=
  if (parseUint s).2 = some .errSyntax then .error ⟨s0, .errSyntax⟩
  else toInt64 s0 neg (parseUint s).1

/-- `ParseInt(s, 10, 64)`. -/
def parseInt (s : Bytes) : Except NumError ℤ :=
  match s with
  | [] => .error ⟨s, .errSyntax⟩
  | c :: rest =>
    if c = plus then parseSigned s false rest
    else if c = minus then parseSigned s true rest
    else parseSigned s false s

/-- The bytes of a text. -/
def utf8 (s : String) : Bytes := s.toList.flatMap String.utf8EncodeChar

/-- `Atoi` with its error dropped: the bound of an `int64` beside a range error, zero beside a
syntax error. -/
def atoi (s : Bytes) : ℤ :=
  match parseInt s with
  | .ok z => z
  | .error ⟨_, .errSyntax⟩ => 0
  | .error ⟨_, .errRange⟩ => if s.head? = some minus then -2 ^ 63 else 2 ^ 63 - 1

/-! ### Numerals -/

/-- At least one digit, and nothing else. -/
def Digits (s : Bytes) : Prop := s ≠ [] ∧ ∀ c ∈ s, IsDigit c

/-- The value of digits after others with the value `n`. -/
def valueFrom (n : ℕ) (s : Bytes) : ℕ := s.foldl (fun n c => n * 10 + digitValue c) n

/-- A decimal numeral and its number. -/
inductive Numeral : Bytes → ℤ → Prop
  | unsigned {s : Bytes} (h : Digits s) : Numeral s (valueFrom 0 s)
  | positive {s : Bytes} (h : Digits s) : Numeral (plus :: s) (valueFrom 0 s)
  | negative {s : Bytes} (h : Digits s) : Numeral (minus :: s) (-(valueFrom 0 s : ℤ))

theorem le_valueFrom (n : ℕ) (s : Bytes) : n ≤ valueFrom n s := by
  induction s generalizing n with
  | nil => exact Nat.le_refl n
  | cons c s ih =>
    have h := ih (n * 10 + digitValue c)
    change n ≤ valueFrom (n * 10 + digitValue c) s
    omega

/-- **Everything the loop can return.** -/
theorem parseUintFrom_cases {n : ℕ} (hn : n ≤ maxUint64) (s : Bytes) :
    ((∀ c ∈ s, IsDigit c) ∧ valueFrom n s ≤ maxUint64 ∧
        parseUintFrom n s = (valueFrom n s, none)) ∨
      (¬ (∀ c ∈ s, IsDigit c) ∧ parseUintFrom n s = (0, some .errSyntax)) ∨
      (¬ ((∀ c ∈ s, IsDigit c) ∧ valueFrom n s ≤ maxUint64) ∧
        parseUintFrom n s = (maxUint64, some .errRange)) := by
  induction s generalizing n with
  | nil => exact Or.inl ⟨by simp, hn, rfl⟩
  | cons c rest ih =>
    by_cases hc : IsDigit c
    · by_cases hover : maxUint64 < n * 10 + digitValue c
      · -- the rest is not looked at
        have hbig : ¬ ((∀ b ∈ c :: rest, IsDigit b) ∧ valueFrom n (c :: rest) ≤ maxUint64) := by
          rintro ⟨-, hle⟩
          have hge := le_valueFrom (n * 10 + digitValue c) rest
          exact absurd (Nat.le_trans hge hle) (by omega)
        refine Or.inr (Or.inr ⟨hbig, ?_⟩)
        rw [parseUintFrom, if_pos hc]
        split
        · rfl
        · rfl
      · have hcut : ¬ cutoffUint64 ≤ n := by
          unfold cutoffUint64 maxUint64 at *
          omega
        rw [parseUintFrom, if_pos hc, if_neg hcut, if_neg hover]
        rcases ih (Nat.le_of_not_lt hover) with ⟨hd, hle, heq⟩ | ⟨hd, heq⟩ | ⟨hd, heq⟩
        · exact Or.inl ⟨List.forall_mem_cons.mpr ⟨hc, hd⟩, hle, heq⟩
        · exact Or.inr (Or.inl ⟨fun h => hd (List.forall_mem_cons.mp h).2, heq⟩)
        · exact Or.inr (Or.inr ⟨fun h => hd ⟨(List.forall_mem_cons.mp h.1).2, h.2⟩, heq⟩)
    · rw [parseUintFrom, if_neg hc]
      exact Or.inr (Or.inl ⟨fun h => hc (h c List.mem_cons_self), rfl⟩)

/-- The number is one of an `int64`. -/
def InRange (z : ℤ) : Prop := -2 ^ 63 ≤ z ∧ z < 2 ^ 63

/-- The number with its sign. -/
def signed (neg : Bool) (un : ℕ) : ℤ := if neg then -(un : ℤ) else un

theorem InRange.natAbs_le {neg : Bool} {un : ℕ} (h : InRange (signed neg un)) :
    un ≤ cutoffInt64 := by
  unfold InRange signed at h
  unfold cutoffInt64
  split at h <;> omega

theorem toInt64_eq_ok_iff (s0 : Bytes) (neg : Bool) (un : ℕ) (z : ℤ) :
    toInt64 s0 neg un = .ok z ↔ z = signed neg un ∧ InRange z := by
  have hcases : (InRange (signed neg un) ∧ toInt64 s0 neg un = .ok (signed neg un)) ∨
      (¬ InRange (signed neg un) ∧ toInt64 s0 neg un = .error ⟨s0, .errRange⟩) := by
    cases neg with
    | false =>
      by_cases hle : cutoffInt64 ≤ un
      · refine Or.inr ⟨fun h => ?_, if_pos ⟨rfl, hle⟩⟩
        simp only [InRange, signed, cutoffInt64, Bool.false_eq_true, if_false] at h hle
        omega
      · refine Or.inl ⟨?_, by simp [toInt64, hle, signed]⟩
        simp only [InRange, signed, cutoffInt64, Bool.false_eq_true, if_false] at hle ⊢
        omega
    | true =>
      by_cases hlt : cutoffInt64 < un
      · refine Or.inr ⟨fun h => ?_, by simp [toInt64, hlt]⟩
        simp only [InRange, signed, cutoffInt64, if_true] at h hlt
        omega
      · refine Or.inl ⟨?_, by simp [toInt64, hlt, signed]⟩
        simp only [InRange, signed, cutoffInt64, if_true] at hlt ⊢
        omega
  rcases hcases with ⟨hr, heq⟩ | ⟨hr, heq⟩
  · rw [heq, Except.ok.injEq]
    exact ⟨fun h => ⟨h.symm, h ▸ hr⟩, fun h => h.1.symm⟩
  · rw [heq]
    exact iff_of_false (by simp) fun h => hr (h.1 ▸ h.2)

/-- What is accepted after the sign. -/
theorem parseSigned_eq_ok_iff (s0 : Bytes) (neg : Bool) (s : Bytes) (z : ℤ) :
    parseSigned s0 neg s = .ok z ↔
      (Digits s ∧ z = signed neg (valueFrom 0 s)) ∧ InRange z := by
  by_cases hnil : s = []
  · subst hnil
    exact iff_of_false (by simp [parseSigned, parseUint]) fun h => h.1.1.1 rfl
  have hmax : cutoffInt64 < maxUint64 := by decide
  rw [parseSigned, parseUint, if_neg hnil]
  rcases parseUintFrom_cases (Nat.zero_le maxUint64) s with ⟨hd, -, heq⟩ | ⟨hd, heq⟩ | ⟨hd, heq⟩
  · have hdigits : Digits s := ⟨hnil, hd⟩
    rw [heq, if_neg (by simp), toInt64_eq_ok_iff]
    exact ⟨fun h => ⟨⟨hdigits, h.1⟩, h.2⟩, fun h => ⟨h.1.2, h.2⟩⟩
  · rw [heq, if_pos rfl]
    exact iff_of_false (by simp) fun h => hd h.1.1.2
  · -- the number that comes along with a range error is out of range again
    rw [heq, if_neg (by simp), toInt64_eq_ok_iff]
    refine iff_of_false (fun h => ?_) fun h => hd ⟨h.1.1.2, ?_⟩
    · have hle : maxUint64 ≤ cutoffInt64 := (h.1 ▸ h.2 : InRange (signed neg maxUint64)).natAbs_le
      exact absurd hle (Nat.not_le_of_lt hmax)
    · have hle := (h.1.2 ▸ h.2 : InRange (signed neg (valueFrom 0 s))).natAbs_le
      exact Nat.le_trans hle (Nat.le_of_lt hmax)

theorem not_isDigit_plus : ¬ IsDigit plus := by decide

theorem not_isDigit_minus : ¬ IsDigit minus := by decide

/-- A numeral, read from its first byte. -/
theorem numeral_cons_iff (c : UInt8) (s : Bytes) (z : ℤ) :
    Numeral (c :: s) z ↔
      if c = plus then Digits s ∧ z = valueFrom 0 s
      else if c = minus then Digits s ∧ z = -(valueFrom 0 s : ℤ)
      else Digits (c :: s) ∧ z = valueFrom 0 (c :: s) := by
  constructor
  · intro h
    generalize hs : c :: s = t at h
    cases h with
    | unsigned h =>
      subst hs
      have hc := h.2 c List.mem_cons_self
      have hplus : c ≠ plus := fun heq => not_isDigit_plus (heq ▸ hc)
      have hminus : c ≠ minus := fun heq => not_isDigit_minus (heq ▸ hc)
      rw [if_neg hplus, if_neg hminus]
      exact ⟨h, rfl⟩
    | positive h =>
      obtain ⟨rfl, rfl⟩ := List.cons.inj hs
      rw [if_pos rfl]
      exact ⟨h, rfl⟩
    | negative h =>
      obtain ⟨rfl, rfl⟩ := List.cons.inj hs
      rw [if_neg (by decide), if_pos rfl]
      exact ⟨h, rfl⟩
  · intro h
    split at h
    · next hc => rw [hc, h.2]; exact .positive h.1
    · split at h
      · next hc => rw [hc, h.2]; exact .negative h.1
      · rw [h.2]; exact .unsigned h.1

/-- A numeral has only digits after its sign. -/
theorem Numeral.not_mem {s : Bytes} {z : ℤ} (h : Numeral s z) {b : UInt8} (hb : ¬ IsDigit b)
    (hplus : b ≠ plus) (hminus : b ≠ minus) : b ∉ s := by
  intro hmem
  cases h with
  | unsigned h => exact hb (h.2 b hmem)
  | positive h => exact (List.mem_cons.mp hmem).elim hplus fun hmem => hb (h.2 b hmem)
  | negative h => exact (List.mem_cons.mp hmem).elim hminus fun hmem => hb (h.2 b hmem)

/-- A sign alone is none. -/
theorem not_numeral_minus {z : ℤ} : ¬ Numeral [minus] z := by
  rw [numeral_cons_iff, if_neg (by decide), if_pos rfl]
  exact fun h => h.1.1 rfl

theorem numeral_ne_nil {z : ℤ} : ¬ Numeral [] z := by
  generalize hs : ([] : Bytes) = t
  intro h
  cases h with
  | unsigned h => exact h.1 hs.symm
  | positive => exact absurd hs (by simp)
  | negative => exact absurd hs (by simp)

/-- **What `ParseInt` accepts**: the decimal numerals of the numbers of an `int64`. -/
theorem parseInt_eq_ok_iff (s : Bytes) (z : ℤ) :
    parseInt s = .ok z ↔ Numeral s z ∧ InRange z := by
  cases s with
  | nil => exact iff_of_false (by simp [parseInt]) fun h => numeral_ne_nil h.1
  | cons c rest =>
    rw [parseInt, numeral_cons_iff]
    split
    · exact parseSigned_eq_ok_iff _ false rest z
    · split
      · exact parseSigned_eq_ok_iff _ true rest z
      · exact parseSigned_eq_ok_iff _ false (c :: rest) z

/-! ### Texts without overflow -/

/-- Each byte multiplies what the loop can return by ten, whatever it ends with. -/
theorem parseUintFrom_lt (n : ℕ) (s : Bytes) :
    (parseUintFrom n s).1 < (n + 1) * 10 ^ s.length := by
  induction s generalizing n with
  | nil => simp [parseUintFrom]
  | cons c rest ih =>
    have hpow : (n + 1) * 10 ^ (c :: rest).length = (n * 10 + 10) * 10 ^ rest.length := by
      rw [List.length_cons, Nat.pow_succ]
      ring
    have hpos : 0 < 10 ^ rest.length := Nat.pow_pos (by decide)
    have hle : n * 10 + 10 ≤ (n * 10 + 10) * 10 ^ rest.length := Nat.le_mul_of_pos_right _ hpos
    rw [parseUintFrom, hpow]
    split
    · next hc =>
      have hdigit : digitValue c ≤ 9 := by
        have := hc.2
        unfold digitValue
        omega
      split
      · unfold cutoffUint64 maxUint64 at *
        omega
      · split
        · simp only
          omega
        · exact (ih _).trans_le (Nat.mul_le_mul_right _ (by omega))
    · simp only
      omega

theorem parseSigned_of_short {s0 s : Bytes} {neg : Bool} {e : NumError} (h : s.length ≤ 18)
    (he : parseSigned s0 neg s = .error e) : e.err = .errSyntax := by
  unfold parseSigned at he
  split at he
  · rw [← Except.error.inj he]
  · -- the number is below the bounds of an `int64`
    have hlt : (parseUint s).1 < cutoffInt64 := by
      unfold parseUint
      split
      · decide
      · calc (parseUintFrom 0 s).1 < (0 + 1) * 10 ^ s.length := parseUintFrom_lt 0 s
          _ ≤ 1 * 10 ^ 18 := Nat.mul_le_mul_left _ (Nat.pow_le_pow_right (by decide) h)
          _ ≤ cutoffInt64 := by decide
    rw [toInt64, if_neg fun h => absurd h.2 (Nat.not_le_of_lt hlt),
      if_neg fun h => absurd h.2 (Nat.not_lt_of_lt hlt)] at he
    exact absurd he (by simp)

/-- **What `Atoi` makes of a name.** A text that is too short to overflow and is no numeral
counts as zero. -/
theorem atoi_of_not_numeral {s : Bytes} (hshort : s.length ≤ 18) (h : ∀ z, ¬ Numeral s z) :
    atoi s = 0 := by
  unfold atoi
  split
  · next z hok => exact absurd ((parseInt_eq_ok_iff s z).mp hok).1 (h z)
  · rfl
  · next num herr =>
    have hsyntax : (⟨num, .errRange⟩ : NumError).err = .errSyntax := by
      cases s with
      | nil => exact absurd herr (by simp [parseInt])
      | cons c rest =>
        have hrest : rest.length ≤ 18 := Nat.le_of_succ_le hshort
        rw [parseInt] at herr
        split at herr
        · exact parseSigned_of_short hrest herr
        · split at herr
          · exact parseSigned_of_short hrest herr
          · exact parseSigned_of_short hshort herr
    exact absurd hsyntax (by simp)

/-! ### Printing -/

/-- The numeral of a natural number without leading zeros. -/
def formatNat (n : ℕ) : Bytes :=
  if n = 0 then [48] else (Nat.digits 10 n).reverse.map fun d => UInt8.ofNat (48 + d)

/-- The numeral of a number as `%d` prints it. -/
def formatInt (z : ℤ) : Bytes :=
  if z < 0 then minus :: formatNat z.natAbs else formatNat z.natAbs

theorem valueFrom_eq_ofDigits (s : Bytes) :
    valueFrom 0 s = Nat.ofDigits 10 (s.map digitValue).reverse := by
  rw [Nat.ofDigits_eq_foldr, List.foldr_reverse, List.foldl_map]
  simp only [valueFrom, Nat.cast_id]
  congr 1
  funext n c
  rw [Nat.mul_comm, Nat.add_comm]

theorem toNat_digitByte {d : ℕ} (h : d < 10) : (UInt8.ofNat (48 + d)).toNat = 48 + d := by
  rw [UInt8.toNat_ofNat']
  omega

theorem digits_formatNat (n : ℕ) : Digits (formatNat n) := by
  unfold formatNat
  split
  · have hzero : IsDigit 48 := by decide
    exact ⟨by simp, List.forall_mem_singleton.mpr hzero⟩
  · next hn =>
    constructor
    · simp [Nat.digits_ne_nil_iff_ne_zero.mpr hn]
    · intro c hc
      obtain ⟨d, hd, rfl⟩ := List.mem_map.mp hc
      have hlt : d < 10 := Nat.digits_lt_base (by decide) (List.mem_reverse.mp hd)
      rw [IsDigit, toNat_digitByte hlt]
      omega

theorem valueFrom_formatNat (n : ℕ) : valueFrom 0 (formatNat n) = n := by
  unfold formatNat
  split
  · next hn => rw [hn]; rfl
  · have hdigits : ((Nat.digits 10 n).reverse.map fun d => UInt8.ofNat (48 + d)).map digitValue =
        (Nat.digits 10 n).reverse := by
      rw [List.map_map]
      refine (List.map_congr_left fun d hd => ?_).trans (List.map_id' _)
      have hlt : d < 10 := Nat.digits_lt_base (by decide) (List.mem_reverse.mp hd)
      rw [Function.comp_apply, digitValue, toNat_digitByte hlt]
      omega
    rw [valueFrom_eq_ofDigits, hdigits, List.reverse_reverse, Nat.ofDigits_digits]

/-- What is printed is a numeral. -/
theorem numeral_formatInt (z : ℤ) : Numeral (formatInt z) z := by
  unfold formatInt
  split
  · next hneg =>
    have h := Numeral.negative (digits_formatNat z.natAbs)
    rw [valueFrom_formatNat, Int.ofNat_natAbs_of_nonpos (Int.le_of_lt hneg), Int.neg_neg] at h
    exact h
  · next hnonneg =>
    have h := Numeral.unsigned (digits_formatNat z.natAbs)
    rw [valueFrom_formatNat, Int.natAbs_of_nonneg (Int.not_lt.mp hnonneg)] at h
    exact h

end Strconv

end EProxy
