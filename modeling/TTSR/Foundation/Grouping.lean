import Mathlib.Algebra.BigOperators.Group.List.Basic
import Mathlib.Algebra.BigOperators.Ring.List
import Mathlib.Algebra.Order.BigOperators.Group.List
import Mathlib.Algebra.Order.Field.Basic
import Mathlib.Data.Nat.Cast.Order.Field
import Mathlib.Tactic.FieldSimp
import Mathlib.Tactic.Ring
import TTSR.Foundation.Dict

/-!
# Grouping and centring

- `groupBy`: the values of a list collected by key, in the order of the list. A
  lookup yields the values of its key (`getD_groupBy`).
- `mean`, `variance`: of a list of values in a field; neither depends on the
  order.
-/

namespace TTSR.Foundation.Grouping

/-! ## Collecting by key -/

section GroupBy

variable {κ ν : Type*} [DecidableEq κ]

def collect (d : Dict κ (List ν)) (p : κ × ν) : Dict κ (List ν) :=
  d.set p.1 (d.getD p.1 [] ++ [p.2])

def groupBy (pairs : List (κ × ν)) : Dict κ (List ν) :=
  pairs.foldl collect .empty

/-- The values of one key. -/
def valuesOf (k : κ) (pairs : List (κ × ν)) : List ν :=
  (pairs.filter (·.1 = k)).map Prod.snd

theorem getD_foldl_collect (k : κ) (pairs : List (κ × ν))
    (d : Dict κ (List ν)) :
    (pairs.foldl collect d).getD k [] = d.getD k [] ++ valuesOf k pairs := by
  induction pairs generalizing d with
  | nil => simp [valuesOf]
  | cons p pairs ih =>
      rw [List.foldl_cons, ih, collect, valuesOf, valuesOf]
      by_cases hk : p.1 = k
      · subst hk
        rw [Dict.getD_set_self, List.filter_cons_of_pos (by simp),
          List.map_cons, List.append_assoc]
        rfl
      · rw [Dict.getD_set_ne _ _ _ (Ne.symm hk),
          List.filter_cons_of_neg (by simpa using hk)]

theorem getD_groupBy (k : κ) (pairs : List (κ × ν)) :
    (groupBy pairs).getD k [] = valuesOf k pairs := by
  rw [groupBy, getD_foldl_collect, Dict.getD_empty, List.nil_append]

theorem valuesOf_perm {k : κ} {pairs pairs' : List (κ × ν)}
    (h : pairs.Perm pairs') : (valuesOf k pairs).Perm (valuesOf k pairs') :=
  (h.filter _).map _

end GroupBy

/-! ## Means -/

section Mean

variable {K : Type*} [Field K]

def mean (xs : List K) : K := xs.sum / xs.length

/-- The unbiased variance. -/
def variance (xs : List K) : K :=
  (xs.map fun x => (x - mean xs) ^ 2).sum / (xs.length - 1 : ℕ)

theorem mean_perm {xs ys : List K} (h : xs.Perm ys) : mean xs = mean ys := by
  rw [mean, mean, h.sum_eq, h.length_eq]

theorem variance_perm {xs ys : List K} (h : xs.Perm ys) :
    variance xs = variance ys := by
  rw [variance, variance, mean_perm h, (h.map _).sum_eq, h.length_eq]

variable [LinearOrder K] [IsStrictOrderedRing K]

/-- The mean of equal values. -/
theorem mean_eq_of_forall {xs : List K} {c : K} (hne : xs ≠ [])
    (h : ∀ x ∈ xs, x = c) : mean xs = c := by
  have hpos : (0 : K) < xs.length := by
    exact_mod_cast List.length_pos_iff.mpr hne
  rw [mean, List.eq_replicate_of_mem h, List.sum_replicate, List.length_replicate,
    nsmul_eq_mul, mul_div_cancel_left₀ _ hpos.ne']

/-- A value that is the largest and not the only one lies above the mean. -/
theorem mean_lt {xs : List K} {c y : K} (h : ∀ x ∈ xs, x ≤ c) (hy : y ∈ xs)
    (hlt : y < c) : mean xs < c := by
  have hpos : (0 : K) < xs.length := by
    exact_mod_cast List.length_pos_of_mem hy
  rw [mean, div_lt_iff₀ hpos]
  have hstrict : (xs.map id).sum < (xs.map fun _ => c).sum :=
    List.sum_lt_sum _ _ h ⟨y, hy, hlt⟩
  rw [List.map_id, List.map_const', List.sum_replicate, nsmul_eq_mul,
    mul_comm] at hstrict
  exact hstrict

/-- A value that is the smallest and not the only one lies below the mean. -/
theorem lt_mean {xs : List K} {c y : K} (h : ∀ x ∈ xs, c ≤ x) (hy : y ∈ xs)
    (hlt : c < y) : c < mean xs := by
  have hpos : (0 : K) < xs.length := by
    exact_mod_cast List.length_pos_of_mem hy
  rw [mean, lt_div_iff₀ hpos]
  have hstrict : (xs.map fun _ => c).sum < (xs.map id).sum :=
    List.sum_lt_sum _ _ h ⟨y, hy, hlt⟩
  rw [List.map_id, List.map_const', List.sum_replicate, nsmul_eq_mul,
    mul_comm] at hstrict
  exact hstrict

end Mean

end TTSR.Foundation.Grouping
