import Mathlib.Data.List.Sort
import Mathlib.Data.List.Count
import TTSR.Foundation.Dict

/-!
# Plurality votes with a fixed tie-break

`IsPlurality xs w` says that `w` wins the vote `xs`: it occurs in it, and every
other candidate is strictly less frequent, or equally frequent and larger. The
winner is unique and does not depend on the order of the votes. `plurality`
computes it the way a counting program does: tally the votes in a dictionary,
sort the entries by falling count and rising candidate, take the first.
-/

namespace TTSR.Foundation

variable {α : Type*} [LinearOrder α]

/-- `w` wins: no candidate beats it on frequency, nor on a tie. -/
def IsPlurality (xs : List α) (w : α) : Prop :=
  w ∈ xs ∧ ∀ a ∈ xs, a ≠ w →
    xs.count a < xs.count w ∨ (xs.count a = xs.count w ∧ w < a)

theorem IsPlurality.unique {xs : List α} {v w : α} (hv : IsPlurality xs v)
    (hw : IsPlurality xs w) : v = w := by
  by_contra hne
  rcases hv.2 w hw.1 (Ne.symm hne) with h | ⟨h, hlt⟩
  · rcases hw.2 v hv.1 hne with h' | ⟨h', -⟩ <;> omega
  · rcases hw.2 v hv.1 hne with h' | ⟨-, hlt'⟩
    · omega
    · exact lt_asymm hlt hlt'

theorem IsPlurality.perm {xs ys : List α} {w : α} (hp : xs.Perm ys)
    (h : IsPlurality xs w) : IsPlurality ys w := by
  refine ⟨hp.mem_iff.mp h.1, fun a ha hne => ?_⟩
  rw [← hp.count_eq, ← hp.count_eq]
  exact h.2 a (hp.mem_iff.mpr ha) hne

/-! ## Tallying -/

/-- One more vote for `a`. -/
def bump (d : Dict α ℕ) (a : α) : Dict α ℕ := d.set a (d.getD a 0 + 1)

/-- The number of votes of each candidate, candidates in order of first vote. -/
def tally (xs : List α) : Dict α ℕ := xs.foldl bump .empty

theorem get?_foldl_bump : ∀ (xs : List α) (d : Dict α ℕ) (a : α),
    (xs.foldl bump d).get? a =
      if a ∈ xs then some (d.getD a 0 + xs.count a) else d.get? a
  | [], d, a => by simp
  | x :: xs, d, a => by
      rw [List.foldl_cons, get?_foldl_bump xs (bump d x) a]
      by_cases hax : a = x
      · subst hax
        by_cases hmem : a ∈ xs
        · simp [bump, hmem]
          omega
        · simp [bump, hmem, List.count_eq_zero_of_not_mem hmem]
      · by_cases hmem : a ∈ xs
        · simp [bump, hmem, hax, Ne.symm hax]
        · simp [bump, hmem, hax]

theorem mem_tally {xs : List α} {a : α} {n : ℕ} :
    (a, n) ∈ (tally xs).entries ↔ a ∈ xs ∧ n = xs.count a := by
  rw [← Dict.get?_eq_some_iff, tally, get?_foldl_bump]
  by_cases h : a ∈ xs
  · simp [h, eq_comm]
  · simp [h]

/-! ## The winner -/

/-- Falling count, then rising candidate. -/
def RanksBefore (p q : α × ℕ) : Prop :=
  q.2 < p.2 ∨ (p.2 = q.2 ∧ p.1 ≤ q.1)

instance : DecidableRel (RanksBefore (α := α)) :=
  fun p q => inferInstanceAs (Decidable (q.2 < p.2 ∨ (p.2 = q.2 ∧ p.1 ≤ q.1)))

instance : Std.Total (RanksBefore (α := α)) where
  total p q := by
    unfold RanksBefore
    rcases lt_trichotomy p.2 q.2 with h | h | h
    · exact Or.inr (Or.inl h)
    · rcases le_total p.1 q.1 with h' | h'
      · exact Or.inl (Or.inr ⟨h, h'⟩)
      · exact Or.inr (Or.inr ⟨h.symm, h'⟩)
    · exact Or.inl (Or.inl h)

instance : IsTrans (α × ℕ) RanksBefore where
  trans p q r hpq hqr := by
    unfold RanksBefore at *
    rcases hpq with h | ⟨h, hle⟩
    · rcases hqr with h' | ⟨h', -⟩
      · exact Or.inl (by omega)
      · exact Or.inl (by omega)
    · rcases hqr with h' | ⟨h', hle'⟩
      · exact Or.inl (by omega)
      · exact Or.inr ⟨by omega, le_trans hle hle'⟩

/-- The first entry of the sorted tally. -/
def plurality (xs : List α) : Option (α × ℕ) :=
  ((tally xs).entries.insertionSort RanksBefore).head?

theorem plurality_eq_none_iff {xs : List α} :
    plurality xs = none ↔ xs = [] := by
  rw [plurality, List.head?_eq_none_iff]
  constructor
  · intro h
    rw [List.eq_nil_iff_forall_not_mem]
    intro a ha
    have hmem : (a, xs.count a) ∈ (tally xs).entries := mem_tally.mpr ⟨ha, rfl⟩
    rw [← List.mem_insertionSort RanksBefore, h] at hmem
    cases hmem
  · rintro rfl
    rfl

theorem isPlurality_of_plurality {xs : List α} {w : α} {n : ℕ}
    (h : plurality xs = some (w, n)) :
    IsPlurality xs w ∧ n = xs.count w := by
  have hsorted := List.pairwise_insertionSort RanksBefore (tally xs).entries
  obtain ⟨rest, hsplit⟩ := List.head?_eq_some_iff.mp h
  rw [hsplit] at hsorted
  have hmem : ∀ q, q ∈ (tally xs).entries ↔ q ∈ (w, n) :: rest := by
    intro q
    rw [← List.mem_insertionSort RanksBefore, hsplit]
  obtain ⟨hw, hn⟩ := mem_tally.mp ((hmem _).mpr List.mem_cons_self)
  refine ⟨⟨hw, fun a ha hne => ?_⟩, hn⟩
  have hq : (a, xs.count a) ∈ (w, n) :: rest :=
    (hmem _).mp (mem_tally.mpr ⟨ha, rfl⟩)
  rcases List.mem_cons.mp hq with heq | hrest
  · exact absurd (congrArg Prod.fst heq) hne
  · rcases (List.pairwise_cons.mp hsorted).1 _ hrest with hlt | ⟨heq, hle⟩
    · exact Or.inl (hn ▸ hlt)
    · exact Or.inr ⟨by rw [← hn]; exact heq.symm, lt_of_le_of_ne hle hne.symm⟩

/-- The computed winner is the winner, with its count. -/
theorem plurality_eq_some_iff {xs : List α} {w : α} {n : ℕ} :
    plurality xs = some (w, n) ↔ IsPlurality xs w ∧ n = xs.count w := by
  refine ⟨isPlurality_of_plurality, ?_⟩
  rintro ⟨hw, rfl⟩
  cases hp : plurality xs with
  | none => exact absurd hw.1 (by simp [plurality_eq_none_iff.mp hp])
  | some q =>
      obtain ⟨hv, hn⟩ := isPlurality_of_plurality hp
      have heq := hv.unique hw
      rw [Option.some.injEq]
      exact Prod.ext heq (by rw [hn, heq])

/-- The winner does not depend on the order of the votes. -/
theorem plurality_perm {xs ys : List α} (hp : xs.Perm ys) :
    plurality xs = plurality ys := by
  cases hx : plurality xs with
  | none =>
      have hnil := plurality_eq_none_iff.mp hx
      subst hnil
      rw [hp.symm.eq_nil]
      rfl
  | some q =>
      obtain ⟨hw, hn⟩ := isPlurality_of_plurality hx
      exact (plurality_eq_some_iff.mpr ⟨hw.perm hp, by rw [hn, hp.count_eq]⟩).symm

end TTSR.Foundation
