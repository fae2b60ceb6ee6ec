import Mathlib.Data.List.MinMax
import Mathlib.Data.List.ProdSigma
import Mathlib.Algebra.Order.Ring.Rat
import Mathlib.Tactic.SplitIfs

/-!
# Matching blocks

The similarity of two sequences as a sequence matcher computes it: the longest
block that occurs in both, the earliest one in the first sequence and then in
the second if there are several, and the same again left and right of it. The
ratio is twice the number of matched elements over the length of both.

The choice among several longest blocks is the one thing that is not symmetric
in the two sequences. `matchSize_comm` says that the ratio is symmetric wherever
there is nothing to choose (`NoTie`).
-/

namespace TTSR.Foundation.MatchingBlocks

variable {α : Type*} [DecidableEq α]

/-- The length of the longest common prefix. -/
def commonPrefix : List α → List α → ℕ
  | x :: xs, y :: ys => if x = y then commonPrefix xs ys + 1 else 0
  | _, _ => 0

/-- The length of the longest block that starts at `p.1` in `a` and at `p.2` in
`b`. -/
def blockLength (a b : List α) (p : ℕ × ℕ) : ℕ :=
  commonPrefix (a.drop p.1) (b.drop p.2)

/-- Where a block may start, in the order in which they are preferred. -/
def places (a b : List α) : List (ℕ × ℕ) :=
  List.range a.length ×ˢ List.range b.length

/-- The first place of a longest block. -/
def findLongestMatch (a b : List α) : Option (ℕ × ℕ) :=
  (places a b).argmax (blockLength a b)

/-- The number of elements matched. -/
def matched : ℕ → List α → List α → ℕ
  | 0, _, _ => 0
  | n + 1, a, b =>
      match findLongestMatch a b with
      | none => 0
      | some p =>
          let k := blockLength a b p
          if k = 0 then 0 else
          matched n (a.take p.1) (b.take p.2) + k +
            matched n (a.drop (p.1 + k)) (b.drop (p.2 + k))

/-- Both parts of a split are shorter, so the length of `a` is fuel enough. -/
def matchSize (a b : List α) : ℕ := matched a.length a b

def ratio (a b : List α) : ℚ :=
  if a.length + b.length = 0 then 1
  else 2 * matchSize a b / (a.length + b.length : ℕ)

/-! ## Blocks -/

theorem commonPrefix_comm (a b : List α) :
    commonPrefix a b = commonPrefix b a := by
  induction a generalizing b with
  | nil => cases b <;> rfl
  | cons x a ih =>
      cases b with
      | nil => rfl
      | cons y b =>
          rw [commonPrefix, commonPrefix, ih]
          by_cases hxy : x = y
          · rw [if_pos hxy, if_pos hxy.symm]
          · rw [if_neg hxy, if_neg (Ne.symm hxy)]

theorem commonPrefix_le (a b : List α) : commonPrefix a b ≤ a.length := by
  induction a generalizing b with
  | nil => cases b <;> exact Nat.le_refl 0
  | cons x a ih =>
      cases b with
      | nil => exact Nat.zero_le _
      | cons y b =>
          rw [commonPrefix]
          split_ifs
          · exact Nat.succ_le_succ (ih b)
          · exact Nat.zero_le _

variable {a b : List α} {p : ℕ × ℕ}

theorem blockLength_swap (a b : List α) (p : ℕ × ℕ) :
    blockLength b a p.swap = blockLength a b p :=
  commonPrefix_comm _ _

theorem blockLength_le (a b : List α) (p : ℕ × ℕ) :
    blockLength a b p ≤ a.length - p.1 := by
  rw [← List.length_drop]
  exact commonPrefix_le _ _

/-- A block that is not empty starts inside both sequences. -/
theorem mem_places (h : 0 < blockLength a b p) : p ∈ places a b := by
  have ha := blockLength_le a b p
  have hb := blockLength_le b a p.swap
  rw [blockLength_swap] at hb
  rw [Prod.fst_swap] at hb
  rw [places, List.mem_product, List.mem_range, List.mem_range]
  omega

/-- What is left of a block, and what is right of it, is shorter. -/
theorem length_parts_lt (h : 0 < blockLength a b p) :
    (a.take p.1).length < a.length ∧
      (a.drop (p.1 + blockLength a b p)).length < a.length := by
  have hle := blockLength_le a b p
  rw [List.length_take, List.length_drop]
  omega

/-! ## Fuel -/

theorem matched_zero (n : ℕ) (h : findLongestMatch a b = none ∨
    ∃ p, findLongestMatch a b = some p ∧ blockLength a b p = 0) :
    matched n a b = 0 := by
  cases n with
  | zero => rfl
  | succ n =>
      rcases h with hnone | ⟨p, hp, hk⟩
      · rw [matched, hnone]
      · rw [matched, hp]
        exact if_pos hk

theorem matched_succ (n : ℕ) (hp : findLongestMatch a b = some p)
    (hk : 0 < blockLength a b p) :
    matched (n + 1) a b =
      matched n (a.take p.1) (b.take p.2) + blockLength a b p +
        matched n (a.drop (p.1 + blockLength a b p))
          (b.drop (p.2 + blockLength a b p)) := by
  rw [matched, hp]
  exact if_neg (Nat.ne_of_gt hk)

theorem matched_of_length_le {n : ℕ} (h : a.length ≤ n) :
    matched n a b = matchSize a b := by
  suffices hfuel : ∀ m n (a b : List α), a.length ≤ m → a.length ≤ n →
      matched m a b = matched n a b from hfuel _ _ _ _ h (Nat.le_refl _)
  intro m
  induction m with
  | zero =>
      intro n a b hm _
      obtain rfl : a = [] := List.length_eq_zero_iff.mp (Nat.le_zero.mp hm)
      exact (matched_zero n (.inl rfl)).symm
  | succ m ih =>
      intro n a b hm hn
      by_cases hzero : findLongestMatch a b = none ∨
          ∃ p, findLongestMatch a b = some p ∧ blockLength a b p = 0
      · rw [matched_zero _ hzero, matched_zero _ hzero]
      · rw [not_or, not_exists] at hzero
        obtain ⟨p, hp⟩ := Option.ne_none_iff_exists'.mp hzero.1
        have hk : 0 < blockLength a b p := by
          rw [Nat.pos_iff_ne_zero]
          intro hk
          exact hzero.2 p ⟨hp, hk⟩
        obtain ⟨hleft, hright⟩ := length_parts_lt hk
        obtain ⟨n, rfl⟩ : ∃ n', n = n' + 1 := Nat.exists_eq_add_one.mpr (by omega)
        rw [matched_succ m hp hk, matched_succ n hp hk,
          ih n (a.take p.1) _ (by omega) (by omega),
          ih n (a.drop (p.1 + blockLength a b p)) _ (by omega) (by omega)]

theorem matchSize_of_match (hp : findLongestMatch a b = some p)
    (hk : 0 < blockLength a b p) :
    matchSize a b =
      matchSize (a.take p.1) (b.take p.2) + blockLength a b p +
        matchSize (a.drop (p.1 + blockLength a b p))
          (b.drop (p.2 + blockLength a b p)) := by
  obtain ⟨hleft, hright⟩ := length_parts_lt hk
  obtain ⟨n, hn⟩ : ∃ n, a.length = n + 1 := Nat.exists_eq_add_one.mpr (by omega)
  rw [matchSize, hn, matched_succ n hp hk, matched_of_length_le (by omega),
    matched_of_length_le (by omega)]

/-! ## Symmetry -/

/-- There is a longest block, and no other place has one as long. -/
def UniqueMatch (a b : List α) (p : ℕ × ℕ) : Prop :=
  0 < blockLength a b p ∧
    ∀ q, q ≠ p → blockLength a b q < blockLength a b p

/-- On every level of the search there is one longest block only, or none. -/
inductive NoTie : List α → List α → Prop
  | disjoint {a b : List α} (h : ∀ p, blockLength a b p = 0) : NoTie a b
  | split {a b : List α} {p : ℕ × ℕ} (h : UniqueMatch a b p)
      (hleft : NoTie (a.take p.1) (b.take p.2))
      (hright : NoTie (a.drop (p.1 + blockLength a b p))
        (b.drop (p.2 + blockLength a b p))) : NoTie a b

/-- Only the places inside the sequences matter. -/
theorem forall_blockLength_lt_iff {n : ℕ} (hn : 0 < n) {P : ℕ × ℕ → Prop} :
    (∀ q, P q → blockLength a b q < n) ↔
      ∀ q ∈ places a b, P q → blockLength a b q < n := by
  constructor
  · intro h q _
    exact h q
  · intro h q hq
    by_cases hpos : 0 < blockLength a b q
    · exact h q (mem_places hpos) hq
    · omega

instance (a b : List α) (p : ℕ × ℕ) : Decidable (UniqueMatch a b p) :=
  decidable_of_iff (0 < blockLength a b p ∧
      ∀ q ∈ places a b, q ≠ p → blockLength a b q < blockLength a b p)
    (and_congr_right fun h => (forall_blockLength_lt_iff h).symm)

theorem noTie_of_disjoint (h : ∀ x ∈ a, x ∉ b) : NoTie a b := by
  refine .disjoint fun p => ?_
  unfold blockLength
  cases ha : a.drop p.1 with
  | nil => rfl
  | cons x xs =>
      cases hb : b.drop p.2 with
      | nil => rfl
      | cons y ys =>
          have hx : x ∈ a := List.mem_of_mem_drop (ha ▸ List.mem_cons_self)
          have hy : y ∈ b := List.mem_of_mem_drop (hb ▸ List.mem_cons_self)
          have hne : x ≠ y := by
            rintro rfl
            exact h x hx hy
          exact if_neg hne

theorem UniqueMatch.swap (h : UniqueMatch a b p) : UniqueMatch b a p.swap := by
  refine ⟨by rw [blockLength_swap]; exact h.1, ?_⟩
  intro q hq
  have hne : q.swap ≠ p := fun heq => hq (by rw [← heq, Prod.swap_swap])
  rw [blockLength_swap, ← blockLength_swap b a q]
  exact h.2 q.swap hne

theorem NoTie.symm (h : NoTie a b) : NoTie b a := by
  induction h with
  | @disjoint a b hzero =>
      refine .disjoint fun p => ?_
      rw [← blockLength_swap b a p]
      exact hzero p.swap
  | @split a b p hunique _ _ ihleft ihright =>
      refine .split hunique.swap ihleft ?_
      rw [blockLength_swap]
      exact ihright

/-- Where there is nothing to choose, the search finds what there is. -/
theorem findLongestMatch_of_unique (h : UniqueMatch a b p) :
    findLongestMatch a b = some p := by
  have hmem : p ∈ places a b := mem_places h.1
  cases hfound : findLongestMatch a b with
  | none =>
      have hnil : places a b = [] := List.argmax_eq_none.mp hfound
      rw [hnil] at hmem
      cases hmem
  | some q =>
      by_contra hne
      have hlt := h.2 q fun hq => hne (congrArg some hq)
      exact absurd (List.le_of_mem_argmax hmem hfound) (Nat.not_le_of_lt hlt)

theorem matchSize_of_disjoint (h : ∀ p, blockLength a b p = 0) :
    matchSize a b = 0 := by
  apply matched_zero _
  cases hfound : findLongestMatch a b with
  | none => exact .inl rfl
  | some p => exact .inr ⟨p, rfl, h p⟩

/-- Without a tie the same elements are matched in both directions. -/
theorem matchSize_comm (h : NoTie a b) : matchSize a b = matchSize b a := by
  induction h with
  | @disjoint a b hzero =>
      have hzero' : ∀ p, blockLength b a p = 0 := fun p => by
        rw [← blockLength_swap b a p]
        exact hzero p.swap
      rw [matchSize_of_disjoint hzero, matchSize_of_disjoint hzero']
  | @split a b p hunique _ _ ihleft ihright =>
      have hswap := hunique.swap
      rw [matchSize_of_match (findLongestMatch_of_unique hunique) hunique.1,
        matchSize_of_match (findLongestMatch_of_unique hswap) hswap.1,
        blockLength_swap, ihleft, ihright]
      rfl

theorem ratio_comm (h : NoTie a b) : ratio a b = ratio b a := by
  rw [ratio, ratio, matchSize_comm h, Nat.add_comm a.length]

end TTSR.Foundation.MatchingBlocks
