import Mathlib.Algebra.Order.Field.Rat
import Mathlib.Algebra.Order.Field.Power
import Mathlib.Data.Int.Interval
import Mathlib.Data.Nat.Log
import Mathlib.Data.Set.Finite.Lemmas
import Mathlib.Data.Set.Finite.List
import Mathlib.Tactic.FieldSimp
import Mathlib.Tactic.Linarith
import Mathlib.Tactic.Positivity
import Mathlib.Tactic.Ring

/-!
# Rounding to doubles

The finite doubles as rational numbers, and what rounding to nearest means
whatever becomes of ties. `round_mul_lt` is the fact about products that a cut
by a fraction needs: a double below one times a number that is not too large
never rounds up to that number.
-/

namespace TTSR.Foundation.Rounding

/-- `q` is a finite double: 53 bits, with an exponent in range. -/
def IsDouble (q : ℚ) : Prop :=
  ∃ m e : ℤ, |m| < 2 ^ 53 ∧ -1074 ≤ e ∧ e ≤ 971 ∧ q = m * (2 : ℚ) ^ e

/-- A number that does not overflow is rounded to a double, and no double is
nearer to it. -/
structure RoundsToNearest (round : ℚ → ℚ) : Prop where
  isDouble : ∀ x, |x| < 2 ^ 1023 → IsDouble (round x)
  nearest : ∀ x d, |x| < 2 ^ 1023 → IsDouble d → |x - round x| ≤ |x - d|

theorem isDouble_natCast {n : ℕ} (h : n ≤ 2 ^ 53) : IsDouble n := by
  rcases Nat.lt_or_eq_of_le h with hlt | rfl
  · refine ⟨n, 0, ?_, by norm_num, by norm_num, by simp⟩
    rw [Nat.abs_cast]
    exact_mod_cast hlt
  · exact ⟨1, 53, by norm_num, by norm_num, by norm_num, by norm_num⟩

theorem finite_isDouble : {q : ℚ | IsDouble q}.Finite := by
  have hpairs : ((Set.Icc (-2 ^ 53 : ℤ) (2 ^ 53)) ×ˢ
      (Set.Icc (-1074 : ℤ) 971)).Finite :=
    (Set.finite_Icc _ _).prod (Set.finite_Icc _ _)
  refine (hpairs.image fun p => (p.1 : ℚ) * (2 : ℚ) ^ p.2).subset ?_
  rintro q ⟨m, e, hm, hlow, hhigh, rfl⟩
  obtain ⟨hneg, hpos⟩ := abs_lt.mp hm
  exact ⟨(m, e), ⟨⟨hneg.le, hpos.le⟩, ⟨hlow, hhigh⟩⟩, rfl⟩

theorem exists_roundsToNearest : ∃ round, RoundsToNearest round := by
  have hzero : IsDouble 0 := by exact_mod_cast isDouble_natCast (Nat.zero_le _)
  have hnearest : ∀ x : ℚ, ∃ d, IsDouble d ∧
      ∀ d', IsDouble d' → |x - d| ≤ |x - d'| := by
    intro x
    obtain ⟨d, hd, hmin⟩ := Set.exists_min_image {q : ℚ | IsDouble q}
      (fun d => |x - d|) finite_isDouble ⟨0, hzero⟩
    exact ⟨d, hd, fun d' hd' => hmin d' hd'⟩
  choose round hround using hnearest
  exact ⟨round, fun x _ => (hround x).1, fun x d _ => (hround x).2 d⟩

theorem mul_le_of_lt_of_lt {m a b : ℤ} (ha : m < a) (hb : m < b) (ha0 : 0 < a)
    : m * a ≤ (a - 1) * b := by
  have hma : m ≤ a - 1 := Int.le_sub_one_of_lt ha
  have hmb : m ≤ b - 1 := Int.le_sub_one_of_lt hb
  rcases le_total b a with hba | hab
  · calc m * a ≤ (b - 1) * a := Int.mul_le_mul_of_nonneg_right hmb ha0.le
      _ = a * b - a := by ring
      _ ≤ (a - 1) * b := by linarith [sub_one_mul a b]
  · calc m * a ≤ (a - 1) * a := Int.mul_le_mul_of_nonneg_right hma ha0.le
      _ ≤ (a - 1) * b := Int.mul_le_mul_of_nonneg_left hab (by omega)

/-- A double below one keeps a distance from it. -/
theorem le_of_isDouble_of_lt_one {r : ℚ} (hr : IsDouble r) (hlt : r < 1) :
    r ≤ 1 - 1 / 2 ^ 53 := by
  obtain ⟨m, e, hm, -, -, rfl⟩ := hr
  have hbits : m < 2 ^ 53 := (abs_lt.mp hm).2
  rcases le_total 0 e with he | he
  · obtain ⟨k, rfl⟩ := Int.eq_ofNat_of_zero_le he
    have hlt' : m * 2 ^ k < 1 := by exact_mod_cast hlt
    have hle : ((m * 2 ^ k : ℤ) : ℚ) ≤ 0 := by exact_mod_cast Int.lt_add_one_iff.mp hlt'
    push_cast at hle
    rw [zpow_natCast]
    exact hle.trans (by norm_num)
  · obtain ⟨k, hk⟩ := Int.eq_ofNat_of_zero_le (neg_nonneg.mpr he)
    obtain rfl : e = -(k : ℤ) := by omega
    rw [zpow_neg, zpow_natCast, ← div_eq_mul_inv] at hlt ⊢
    have hpow : (0 : ℚ) < 2 ^ k := by positivity
    have hmk : m < 2 ^ k := by
      rw [div_lt_one hpow] at hlt
      exact_mod_cast hlt
    have hint := mul_le_of_lt_of_lt hbits hmk (by norm_num)
    have hrat : (m : ℚ) * 2 ^ 53 ≤ (2 ^ 53 - 1) * 2 ^ k := by exact_mod_cast hint
    rw [div_le_iff₀ hpow]
    linarith

/-- There is a double right below `n`. -/
theorem exists_pred {n : ℕ} (hpos : 0 < n) (h : n ≤ 2 ^ 53) :
    ∃ u : ℚ, 0 < u ∧ IsDouble (n - u) ∧ u / 2 < n / 2 ^ 53 := by
  -- `w` is the number of bits by which `n` can be shifted
  let w := Nat.log 2 (2 ^ 53 / n)
  have hquot : 2 ^ 53 / n ≠ 0 := (Nat.div_pos h hpos).ne'
  have hlow : n * 2 ^ w ≤ 2 ^ 53 := by
    calc n * 2 ^ w ≤ n * (2 ^ 53 / n) :=
          Nat.mul_le_mul_left n (Nat.pow_log_le_self 2 hquot)
      _ ≤ 2 ^ 53 := Nat.mul_div_le _ _
  have hhigh : 2 ^ 53 < n * 2 ^ (w + 1) := by
    have hlog : 2 ^ 53 / n < 2 ^ (w + 1) := Nat.lt_pow_succ_log_self (by norm_num) _
    have := (Nat.div_lt_iff_lt_mul hpos).mp hlog
    rwa [Nat.mul_comm] at this
  have hlowQ : (n : ℚ) * 2 ^ w ≤ 2 ^ 53 := by exact_mod_cast hlow
  have hhighQ : (2 : ℚ) ^ 53 < n * 2 ^ (w + 1) := by exact_mod_cast hhigh
  have hpow : (0 : ℚ) < 2 ^ w := by positivity
  have hw : w ≤ 53 := by
    rw [← Nat.pow_le_pow_iff_right (a := 2) (by norm_num)]
    exact le_trans (Nat.le_mul_of_pos_left _ hpos) hlow
  refine ⟨1 / 2 ^ w, by positivity, ⟨n * 2 ^ w - 1, -w, ?_, by omega, by omega, ?_⟩, ?_⟩
  · rw [abs_lt]
    have hone : 1 ≤ n * 2 ^ w := Nat.mul_pos hpos (Nat.two_pow_pos w)
    constructor
    · have : (1 : ℤ) ≤ n * 2 ^ w := by exact_mod_cast hone
      linarith
    · have : (n : ℤ) * 2 ^ w ≤ 2 ^ 53 := by exact_mod_cast hlow
      linarith
  · rw [zpow_neg, zpow_natCast]
    push_cast
    field_simp
  · rw [div_div, ← pow_succ, div_lt_div_iff₀ (by positivity) (by positivity), one_mul]
    exact hhighQ

variable {round : ℚ → ℚ} {n : ℕ}

theorem abs_lt_of_le_natCast {x : ℚ} (hn : n ≤ 2 ^ 53) (h : |x| ≤ n) :
    |x| < 2 ^ 1023 := by
  have hn' : (n : ℚ) ≤ 2 ^ 53 := by exact_mod_cast hn
  have hpow : (2 : ℚ) ^ 53 < 2 ^ 1023 :=
    pow_lt_pow_right₀ (by norm_num) (by norm_num)
  exact lt_of_le_of_lt (h.trans hn') hpow

/-- Numbers of up to 53 bits are not rounded. -/
theorem round_natCast (h : RoundsToNearest round) (hn : n ≤ 2 ^ 53) :
    round n = n := by
  have hrange : |(n : ℚ)| < 2 ^ 1023 :=
    abs_lt_of_le_natCast hn (le_of_eq (Nat.abs_cast n))
  have hle := h.nearest n n hrange (isDouble_natCast hn)
  rw [sub_self, abs_zero] at hle
  have hzero := abs_eq_zero.mp (le_antisymm hle (abs_nonneg _))
  exact (sub_eq_zero.mp hzero).symm

/-- A double below one times `n` is not rounded up to `n`. -/
theorem round_mul_lt (h : RoundsToNearest round) (hpos : 0 < n)
    (hn : n ≤ 2 ^ 53) {r : ℚ} (hr : IsDouble r) (hnonneg : 0 ≤ r)
    (hlt : r < 1) : round (n * r) < n := by
  obtain ⟨u, hu, hd, hhalf⟩ := exists_pred hpos hn
  have hle := le_of_isDouble_of_lt_one hr hlt
  have hn' : (0 : ℚ) < n := by exact_mod_cast hpos
  have hx : n * r ≤ n - n / 2 ^ 53 := by
    calc n * r ≤ n * (1 - 1 / 2 ^ 53) := by gcongr
      _ = n - n / 2 ^ 53 := by ring
  have hrange : |n * r| < 2 ^ 1023 := by
    apply abs_lt_of_le_natCast hn
    rw [abs_of_nonneg (mul_nonneg hn'.le hnonneg)]
    exact mul_le_of_le_one_right hn'.le hlt.le
  by_contra hge
  rw [not_lt] at hge
  -- the double below is nearer than anything from `n` on
  have hnear := h.nearest (n * r) (n - u) hrange hd
  have hfar : n - n * r ≤ |n * r - round (n * r)| := by
    rw [abs_sub_comm]
    exact le_trans (by linarith) (le_abs_self _)
  have hclose : |n * r - (n - u)| < n - n * r := by
    rw [abs_lt]
    constructor <;> linarith
  linarith

end TTSR.Foundation.Rounding
