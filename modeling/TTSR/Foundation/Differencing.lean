import Mathlib.Algebra.BigOperators.Group.List.Basic
import Mathlib.Algebra.Order.Monoid.Defs
import Mathlib.Algebra.Order.Group.Defs
import Mathlib.Data.List.Basic
import Mathlib.Order.Lattice

/-!
# Merging by largest differences

The scheme behind the largest differencing method. A queue holds states; the two
that come first are merged into one, until one is left. Whatever the order of
the queue, the last state is made of all of them and has every property that a
merge preserves (`drain_spec`).

A merge adds the largest sum of one state to the smallest one of the other, and
so on. The sums it yields lie no further apart than those of the state that was
wider (`spread_add_reverse`).
-/

namespace TTSR.Foundation.Differencing

/-! ## The queue -/

section Queue

variable {σ : Type*} (lt : σ → σ → Bool)

/-- The first state that no other is less than, and the others. -/
def popMin : List σ → Option (σ × List σ)
  | [] => none
  | s :: states =>
      match popMin states with
      | none => some (s, [])
      | some (m, rest) => if lt m s then some (m, s :: rest) else some (s, states)

/-- Merge the two first states until one is left; `fuel` bounds the number of
merges. -/
def drain (merge : σ → σ → σ) : ℕ → List σ → Option σ
  | _, [] => none
  | _, [s] => some s
  | 0, _ => none
  | fuel + 1, states => do
      let (s, rest) ← popMin lt states
      let (t, rest) ← popMin lt rest
      drain merge fuel (merge s t :: rest)

variable {lt} {merge : σ → σ → σ}

theorem popMin_perm {states rest : List σ} {m : σ}
    (h : popMin lt states = some (m, rest)) : states.Perm (m :: rest) := by
  induction states generalizing m rest with
  | nil => cases h
  | cons s states ih =>
      rw [popMin] at h
      cases hpop : popMin lt states with
      | none =>
          rw [hpop] at h
          obtain ⟨rfl, rfl⟩ := Prod.mk.inj (Option.some.inj h)
          cases states with
          | nil => rfl
          | cons t states =>
              rw [popMin] at hpop
              split at hpop
              · cases hpop
              · split_ifs at hpop
      | some popped =>
          obtain ⟨m', rest'⟩ := popped
          simp only [hpop] at h
          split_ifs at h
          · obtain ⟨rfl, rfl⟩ := Prod.mk.inj (Option.some.inj h)
            exact ((ih hpop).cons s).trans (.swap _ _ _)
          · obtain ⟨rfl, rfl⟩ := Prod.mk.inj (Option.some.inj h)
            exact .refl _

theorem exists_popMin (lt : σ → σ → Bool) {states : List σ} (h : states ≠ []) :
    ∃ m rest, popMin lt states = some (m, rest) := by
  cases states with
  | nil => exact absurd rfl h
  | cons s states =>
      rw [popMin]
      cases popMin lt states with
      | none => exact ⟨_, _, rfl⟩
      | some popped =>
          dsimp only
          split_ifs <;> exact ⟨_, _, rfl⟩

/-- Two states are popped and their merge is pushed. -/
theorem drain_cons_cons (lt : σ → σ → Bool) (merge : σ → σ → σ) (s t : σ)
    (states : List σ) (fuel : ℕ) :
    ∃ a b rest, (s :: t :: states).Perm (a :: b :: rest) ∧
      drain lt merge (fuel + 1) (s :: t :: states) =
        drain lt merge fuel (merge a b :: rest) := by
  obtain ⟨a, rest, ha⟩ := exists_popMin lt (List.cons_ne_nil s (t :: states))
  have hperm := popMin_perm ha
  have hne : rest ≠ [] := by
    rintro rfl
    have := hperm.length_eq
    simp at this
  obtain ⟨b, rest', hb⟩ := exists_popMin lt hne
  refine ⟨a, b, rest', hperm.trans ((popMin_perm hb).cons a), ?_⟩
  rw [drain]
  · simp only [ha, hb, bind, Option.bind]
  all_goals simp

/-- **Merge rule.** If a merge preserves `P` and adds up `f`, then there is a
last state, it satisfies `P`, and its `f` is that of all the first states. -/
theorem drain_spec {M : Type*} [AddCommMonoid M] {P : σ → Prop} {f : σ → M}
    (hmerge : ∀ s t, P s → P t → P (merge s t) ∧ f (merge s t) = f s + f t)
    {fuel : ℕ} {states : List σ} (hne : states ≠ [])
    (hfuel : states.length ≤ fuel + 1) (h : ∀ s ∈ states, P s) :
    ∃ last, drain lt merge fuel states = some last ∧ P last ∧
      f last = (states.map f).sum := by
  induction fuel generalizing states with
  | zero =>
      obtain ⟨s, rfl⟩ : ∃ s, states = [s] := by
        have hpos := List.length_pos_of_ne_nil hne
        exact List.length_eq_one_iff.mp (by omega)
      exact ⟨s, by rw [drain], h s List.mem_cons_self, by simp⟩
  | succ fuel ih =>
      match states, hne with
      | [s], _ => exact ⟨s, by rw [drain], h s List.mem_cons_self, by simp⟩
      | s :: t :: states, _ =>
          obtain ⟨a, b, rest, hperm, hdrain⟩ :=
            drain_cons_cons lt merge s t states fuel
          have hall : ∀ u ∈ a :: b :: rest, P u := fun u hu =>
            h u (hperm.mem_iff.mpr hu)
          obtain ⟨ha, hrest⟩ := List.forall_mem_cons.mp hall
          obtain ⟨hb, hrest⟩ := List.forall_mem_cons.mp hrest
          obtain ⟨hab, hsum⟩ := hmerge a b ha hb
          have hlength : (merge a b :: rest).length ≤ fuel + 1 := by
            have := hperm.length_eq
            simp only [List.length_cons] at this hfuel ⊢
            omega
          obtain ⟨last, hlast, hP, hf⟩ := ih (List.cons_ne_nil _ _) hlength
            (List.forall_mem_cons.mpr ⟨hab, hrest⟩)
          refine ⟨last, hdrain.trans hlast, hP, ?_⟩
          rw [hf, (hperm.map f).sum_eq]
          simp [hsum, add_assoc]

end Queue

/-! ## Spread -/

section Spread

variable {α : Type*} [AddCommMonoid α] [PartialOrder α] [IsOrderedAddMonoid α]
  {d : α} {xs ys : List α}

/-- No two values lie more than `d` apart. -/
def SpreadLE (d : α) (xs : List α) : Prop := ∀ a ∈ xs, ∀ b ∈ xs, a ≤ b + d

omit [AddCommMonoid α] [IsOrderedAddMonoid α] in
theorem getElem_le_of_pairwise {zs : List α} (h : zs.Pairwise (· ≤ ·)) {i j : ℕ}
    (hij : i ≤ j) (hi : i < zs.length) (hj : j < zs.length) :
    zs[i] ≤ zs[j] := by
  rcases Nat.eq_or_lt_of_le hij with rfl | hlt
  · exact le_rfl
  · exact List.pairwise_iff_getElem.mp h i j hi hj hlt

/-- **The largest meets the smallest.** The sums of two descending lists, one of
them reversed, lie no further apart than the values of either list. -/
theorem spread_add_reverse (hxs : xs.Pairwise (· ≥ ·)) (hys : ys.Pairwise (· ≥ ·))
    (hdx : SpreadLE d xs) (hdy : SpreadLE d ys) :
    SpreadLE d (List.zipWith (· + ·) xs ys.reverse) := by
  intro u hu v hv
  obtain ⟨i, hi, rfl⟩ := List.getElem_of_mem hu
  obtain ⟨j, hj, rfl⟩ := List.getElem_of_mem hv
  rw [List.length_zipWith, lt_min_iff] at hi hj
  simp only [List.getElem_zipWith]
  have hrev : ys.reverse.Pairwise (· ≤ ·) := by
    rw [List.pairwise_reverse]
    exact hys
  rcases le_total i j with hij | hij
  · -- the reversed list is ascending
    have hy : ys.reverse[i] ≤ ys.reverse[j] := getElem_le_of_pairwise hrev hij hi.2 hj.2
    calc xs[i] + ys.reverse[i] ≤ (xs[j] + d) + ys.reverse[j] :=
          add_le_add (hdx _ (List.getElem_mem _) _ (List.getElem_mem _)) hy
      _ = xs[j] + ys.reverse[j] + d := add_right_comm _ _ _
  · have hx : xs[i] ≤ xs[j] := by
      rcases Nat.eq_or_lt_of_le hij with rfl | hlt
      · exact le_rfl
      · exact List.pairwise_iff_getElem.mp hxs j i _ hi.1 hlt
    have hmem : ∀ {l} (hl : l < ys.reverse.length), ys.reverse[l] ∈ ys :=
      fun hl => List.mem_reverse.mp (List.getElem_mem hl)
    calc xs[i] + ys.reverse[i] ≤ xs[j] + (ys.reverse[j] + d) :=
          add_le_add hx (hdy _ (hmem hi.2) _ (hmem hj.2))
      _ = xs[j] + ys.reverse[j] + d := (add_assoc _ _ _).symm

end Spread

end TTSR.Foundation.Differencing
