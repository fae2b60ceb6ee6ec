import Mathlib.Data.Nat.Cast.Field
import Mathlib.Data.Nat.Prime.Basic
import Mathlib.Data.Rat.Lemmas
import TTSR.Foundation.JsonNormal

/-!
# Doubles in decimal

A double has a finite decimal expansion. `decimalParts` writes it out, without
an exponent, and `decimalValue` is the number that decimal parts stand for.
A decoder that reads a number as its decimal value if that is a double, and as
an infinity otherwise, meets what is asked of one (`exactDecoder`).
-/

namespace TTSR.Foundation.DecimalFloat

open TTSR.Foundation.JsonNumber TTSR.Foundation.JsonText
open TTSR.Foundation.JsonDecode TTSR.Foundation.Rounding

/-! ## Deciding whether a number is a double -/

theorem isDouble_iff (q : ℚ) :
    IsDouble q ↔ ∃ i ∈ List.range 2046,
      (q * (2 : ℚ) ^ (1074 - (i : ℤ))).den = 1 ∧
        (q * (2 : ℚ) ^ (1074 - (i : ℤ))).num.natAbs < 2 ^ 53 := by
  have hcancel : ∀ e : ℤ, (2 : ℚ) ^ (-e) * (2 : ℚ) ^ e = 1 := fun e => by
    rw [← zpow_add₀ two_ne_zero, neg_add_cancel, zpow_zero]
  have habs : ∀ m : ℤ, |m| < 2 ^ 53 ↔ m.natAbs < 2 ^ 53 := fun m => by
    rw [Int.abs_eq_natAbs]
    exact_mod_cast Iff.rfl
  constructor
  · rintro ⟨m, e, hm, hlow, hhigh, rfl⟩
    obtain ⟨i, hi⟩ := Int.eq_ofNat_of_zero_le (by omega : 0 ≤ e + 1074)
    refine ⟨i, List.mem_range.mpr (by omega), ?_⟩
    rw [← hi, show 1074 - (e + 1074) = -e by ring, mul_assoc, mul_comm (_ ^ e),
      hcancel, mul_one]
    exact ⟨Rat.den_intCast m, by rwa [Rat.num_intCast, ← habs]⟩
  · rintro ⟨i, hi, hden, hnum⟩
    have hlt := List.mem_range.mp hi
    refine ⟨_, -(1074 - (i : ℤ)), (habs _).mpr hnum, by omega, by omega, ?_⟩
    rw [Rat.coe_int_num_of_den_eq_one hden, mul_assoc, mul_comm (_ ^ _),
      hcancel, mul_one]

instance : DecidablePred IsDouble := fun q =>
  decidable_of_iff _ (isDouble_iff q).symm

/-- The denominator of a double is a power of two. -/
theorem exists_den_eq_two_pow {q : ℚ} (h : IsDouble q) :
    ∃ j, q.den = 2 ^ j := by
  obtain ⟨m, e, -, -, -, rfl⟩ := h
  have hdvd : ∃ k : ℕ, ((m : ℚ) * (2 : ℚ) ^ e).den ∣ 2 ^ k := by
    rcases Int.le_total 0 e with he | he
    · obtain ⟨k, rfl⟩ := Int.eq_ofNat_of_zero_le he
      have hint : (m : ℚ) * (2 : ℚ) ^ (k : ℤ) = ((m * 2 ^ k : ℤ) : ℚ) := by
        rw [zpow_natCast]
        push_cast
        rfl
      rw [hint, Rat.den_intCast]
      exact ⟨0, dvd_refl 1⟩
    · obtain ⟨k, hk⟩ := Int.eq_ofNat_of_zero_le (neg_nonneg.mpr he)
      obtain rfl : e = -(k : ℤ) := by omega
      have hdiv : (m : ℚ) * (2 : ℚ) ^ (-(k : ℤ)) = Rat.divInt m (2 ^ k) := by
        rw [zpow_neg, zpow_natCast, Rat.divInt_eq_div, div_eq_mul_inv]
        push_cast
        rfl
      rw [hdiv]
      exact ⟨k, by exact_mod_cast Rat.den_dvd m (2 ^ k)⟩
  obtain ⟨k, hk⟩ := hdvd
  obtain ⟨j, -, hj⟩ := (Nat.dvd_prime_pow Nat.prime_two).mp hk
  exact ⟨j, hj⟩

/-! ## Decimal parts -/

/-- The value of the exponent of a number. -/
def expValue : List Char → ℤ
  | _ :: '-' :: ds => -(Nat.ofDigitChars 10 ds 0 : ℤ)
  | _ :: '+' :: ds => Nat.ofDigitChars 10 ds 0
  | _ :: ds => Nat.ofDigitChars 10 ds 0
  | [] => 0

/-- The number that decimal parts stand for. -/
def decimalValue (p : Parts) : ℚ :=
  (if p.sign = [] then 1 else -1) *
    (Nat.ofDigitChars 10 p.int 0 +
      Nat.ofDigitChars 10 p.frac.tail 0 / 10 ^ p.frac.tail.length) *
    10 ^ expValue p.exp

/-- `n` in at least `k` digits. -/
def paddedDigits (k n : ℕ) : List Char :=
  List.replicate (k - (Nat.toDigits 10 n).length) '0' ++ Nat.toDigits 10 n

/-- How many digits a number with a power of two for its denominator has after
the point, at least one. -/
def fracLength (q : ℚ) : ℕ := max 1 (Nat.log 2 q.den)

/-- The number without its sign, in units of the last digit. -/
def units (q : ℚ) : ℕ := q.num.natAbs * (10 ^ fracLength q / q.den)

def decimalParts (q : ℚ) : Parts where
  sign := if q < 0 then ['-'] else []
  int := Nat.toDigits 10 (units q / 10 ^ fracLength q)
  frac := '.' :: paddedDigits (fracLength q) (units q % 10 ^ fracLength q)
  exp := []

theorem isDigit_paddedDigits (k n : ℕ) :
    ∀ c ∈ paddedDigits k n, c.isDigit = true := by
  intro c hc
  rcases List.mem_append.mp hc with hc | hc
  · rw [List.eq_of_mem_replicate hc]
    rfl
  · exact (digits_toDigits n).2 c hc

theorem length_paddedDigits {k n : ℕ} (hk : 0 < k) (hn : n < 10 ^ k) :
    (paddedDigits k n).length = k := by
  have hle := (Nat.length_toDigits_le_iff (by decide) hk).mpr hn
  rw [paddedDigits, List.length_append, List.length_replicate]
  omega

theorem ofDigitChars_paddedDigits (k n : ℕ) :
    Nat.ofDigitChars 10 (paddedDigits k n) 0 = n := by
  rw [paddedDigits, Nat.ofDigitChars_append, Nat.ofDigitChars_replicate_zero,
    Nat.mul_zero, Nat.ofDigitChars_ten_toDigits]

theorem isNumeral_decimalParts (q : ℚ) : (decimalParts q).IsNumeral where
  sign := by
    unfold decimalParts
    split_ifs <;> simp
  int := by
    rcases Nat.eq_zero_or_pos (units q / 10 ^ fracLength q) with hzero | hpos
    · left
      rw [decimalParts, hzero]
      rfl
    · exact Or.inr ⟨digits_toDigits _, head_toDigits _ hpos⟩
  frac := by
    refine Or.inr ⟨_, rfl, ?_, isDigit_paddedDigits _ _⟩
    exact List.append_ne_nil_of_right_ne_nil _ Nat.toDigits_ne_nil
  exp := Or.inl rfl

/-- The expansion of a double is exact. -/
theorem decimalValue_decimalParts {q : ℚ} (h : IsDouble q) :
    decimalValue (decimalParts q) = q := by
  obtain ⟨j, hj⟩ := exists_den_eq_two_pow h
  have hk : 0 < fracLength q := Nat.lt_of_lt_of_le Nat.zero_lt_one (le_max_left _ _)
  have hpow : (0 : ℚ) < 10 ^ fracLength q := by positivity
  -- the denominator divides the power of ten, so the units are a whole number
  have hdvd : q.den ∣ 10 ^ fracLength q := by
    have hjk : j ≤ fracLength q := by
      rw [fracLength, hj, Nat.log_pow (by decide)]
      exact le_max_right _ _
    rw [hj]
    exact (pow_dvd_pow_of_dvd (by decide) j).trans (pow_dvd_pow 10 hjk)
  have hunits : (units q : ℚ) / 10 ^ fracLength q = |q| := by
    have hden : (q.den : ℚ) ≠ 0 := by exact_mod_cast q.den_nz
    rw [units, Nat.cast_mul, Nat.cast_div hdvd hden, Nat.cast_natAbs,
      Rat.abs_def, Rat.divInt_eq_div]
    push_cast
    field_simp
  have hsplit : ((units q / 10 ^ fracLength q : ℕ) : ℚ) +
      ((units q % 10 ^ fracLength q : ℕ) : ℚ) / 10 ^ fracLength q = |q| := by
    rw [← hunits, eq_div_iff hpow.ne', add_mul, div_mul_cancel₀ _ hpow.ne']
    exact_mod_cast Nat.div_add_mod' (units q) (10 ^ fracLength q)
  have hlength := length_paddedDigits hk
    (Nat.mod_lt (units q) (Nat.pow_pos (by decide) : 0 < 10 ^ fracLength q))
  simp only [decimalValue, decimalParts, List.tail_cons, expValue, zpow_zero,
    mul_one, Nat.ofDigitChars_ten_toDigits, ofDigitChars_paddedDigits, hlength,
    hsplit]
  rcases lt_or_ge q 0 with hneg | hpos
  · simp [hneg, abs_of_neg hneg]
  · simp [not_lt.mpr hpos, abs_of_nonneg hpos]

/-! ## The codec -/

def exactRepr : FloatRepr where
  repr q := (decimalParts q).text
  chars q c hc := by
    have hdigit : ∀ c : Char, c.isDigit = true → isFloatChar c = true :=
      fun c hc => by simp [isFloatChar, hc]
    have hsign : ∀ c ∈ (decimalParts q).sign, isFloatChar c = true := by
      unfold decimalParts
      split_ifs <;> simp [isFloatChar]
    simp only [Parts.text, List.mem_append] at hc
    rcases hc with hc | hc | hc | hc
    · exact hsign c hc
    · exact hdigit c ((digits_toDigits _).2 c hc)
    · rcases List.mem_cons.mp hc with rfl | hc
      · rfl
      · exact hdigit c (isDigit_paddedDigits _ _ c hc)
    · cases hc

/-- The value of the text, if it is a double. -/
def exactParse (text : List Char) : PyFloat :=
  match scanParts text with
  | some (p, _) =>
      if IsDouble (decimalValue p) then .fin (decimalValue p)
      else .inf (decide (decimalValue p < 0))
  | none => .nan

def exactDecoder (maxDigits maxDepth : ℕ) : Decoder where
  parseFloat := exactParse
  maxDigits := maxDigits
  maxDepth := maxDepth

theorem exactParse_text {p : Parts} (hp : p.IsNumeral) :
    exactParse p.text =
      if IsDouble (decimalValue p) then .fin (decimalValue p)
      else .inf (decide (decimalValue p < 0)) := by
  have hscan := scanParts_append hp ends_nil
  rw [List.append_nil] at hscan
  rw [exactParse, hscan]

theorem readsFloats_exactDecoder (maxDigits maxDepth : ℕ) :
    ReadsFloats exactRepr (exactDecoder maxDigits maxDepth) := by
  intro q hq
  refine ⟨decimalParts q, isNumeral_decimalParts q, rfl, rfl, ?_⟩
  show exactParse (decimalParts q).text = _
  rw [exactParse_text (isNumeral_decimalParts q), decimalValue_decimalParts hq,
    if_pos hq]

theorem parsesDoubles_exactDecoder (maxDigits maxDepth : ℕ) :
    ParsesDoubles (exactDecoder maxDigits maxDepth) := by
  intro p hp q hq
  replace hq : exactParse p.text = .fin q := hq
  rw [exactParse_text hp] at hq
  split_ifs at hq with hdouble
  rw [← PyFloat.fin.inj hq]
  exact hdouble

end TTSR.Foundation.DecimalFloat
