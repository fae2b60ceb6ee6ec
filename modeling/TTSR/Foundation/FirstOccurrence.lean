import Mathlib.Data.List.Nodup
import Mathlib.Data.List.Perm.Basic
import Mathlib.Tactic.SplitIfs

/-!
# First occurrences

A pass over a list that keeps the first element of every key. The result has
every key once (`nodup_map_firstBy`, `mem_map_firstBy`), and an element of the
second of two lists is kept if its key is not in the first (`firstBy_append`).

For a list that is numbered, `mem_firstBy_zipIdx` says which numbers are kept.
-/

namespace TTSR.Foundation.FirstOccurrence

variable {E F K : Type*} [DecidableEq K] {key : E → K}

/-- The first element of every key that is not in `seen`. -/
def firstBy (key : E → K) : List K → List E → List E
  | _, [] => []
  | seen, e :: es =>
      if key e ∈ seen then firstBy key seen es
      else e :: firstBy key (key e :: seen) es

theorem firstBy_sublist (seen : List K) (es : List E) :
    (firstBy key seen es).Sublist es := by
  induction es generalizing seen with
  | nil => exact List.Sublist.refl []
  | cons e es ih =>
      rw [firstBy]
      split_ifs
      · exact (ih seen).cons e
      · exact (ih _).cons_cons e

theorem firstBy_map (f : F → E) (seen : List K) (es : List F) :
    firstBy key seen (es.map f) =
      (firstBy (fun e => key (f e)) seen es).map f := by
  induction es generalizing seen with
  | nil => rfl
  | cons e es ih =>
      rw [List.map_cons, firstBy, firstBy, ih, ih]
      split_ifs <;> rfl

/-- Keys may be renamed. -/
theorem firstBy_comp {K' : Type*} [DecidableEq K'] {f : K → K'}
    (hf : Function.Injective f) (seen : List K) (es : List E) :
    firstBy (fun e => f (key e)) (seen.map f) es = firstBy key seen es := by
  induction es generalizing seen with
  | nil => rfl
  | cons e es ih =>
      rw [firstBy, firstBy, ih, ← ih (key e :: seen), List.map_cons]
      simp only [List.mem_map_of_injective hf]

/-- Only which keys have been seen matters. -/
theorem firstBy_congr {seen seen' : List K} (h : ∀ k, k ∈ seen ↔ k ∈ seen')
    (es : List E) : firstBy key seen es = firstBy key seen' es := by
  induction es generalizing seen seen' with
  | nil => rfl
  | cons e es ih =>
      have hcons : ∀ k, k ∈ key e :: seen ↔ k ∈ key e :: seen' := by
        intro k
        rw [List.mem_cons, List.mem_cons, h]
      rw [firstBy, firstBy, ih h, ih hcons]
      by_cases hseen : key e ∈ seen
      · rw [if_pos hseen, if_pos ((h _).mp hseen)]
      · rw [if_neg hseen, if_neg (fun hseen' => hseen ((h _).mpr hseen'))]

theorem firstBy_append (seen : List K) (es es' : List E) :
    firstBy key seen (es ++ es') =
      firstBy key seen es ++ firstBy key (es.map key ++ seen) es' := by
  induction es generalizing seen with
  | nil => rfl
  | cons e es ih =>
      rw [List.cons_append, firstBy, firstBy]
      by_cases hseen : key e ∈ seen
      · rw [if_pos hseen, if_pos hseen, ih]
        congr 1
        refine firstBy_congr (fun k => ?_) es'
        rw [List.map_cons, List.cons_append, List.mem_cons]
        constructor
        · exact Or.inr
        · rintro (rfl | h)
          · exact List.mem_append_right _ hseen
          · exact h
      · rw [if_neg hseen, if_neg hseen, ih, List.cons_append]
        congr 2
        refine firstBy_congr (fun k => ?_) es'
        rw [List.map_cons, List.cons_append, List.mem_cons, List.mem_append,
          List.mem_append, List.mem_cons]
        tauto

/-! ## The keys -/

/-- The keys that are kept are those that occur and have not been seen. -/
theorem mem_map_firstBy {seen : List K} {es : List E} {k : K} :
    k ∈ (firstBy key seen es).map key ↔ k ∈ es.map key ∧ k ∉ seen := by
  induction es generalizing seen with
  | nil => simp [firstBy]
  | cons e es ih =>
      rw [firstBy]
      by_cases hseen : key e ∈ seen
      · rw [if_pos hseen, ih, List.map_cons, List.mem_cons]
        constructor
        · exact fun ⟨hk, hnot⟩ => ⟨Or.inr hk, hnot⟩
        · rintro ⟨rfl | hk, hnot⟩
          · exact absurd hseen hnot
          · exact ⟨hk, hnot⟩
      · rw [if_neg hseen, List.map_cons, List.map_cons, List.mem_cons, ih,
          List.mem_cons, List.mem_cons]
        by_cases hk : k = key e
        · subst hk
          simp [hseen]
        · simp [hk]

theorem nodup_map_firstBy (seen : List K) (es : List E) :
    ((firstBy key seen es).map key).Nodup := by
  induction es generalizing seen with
  | nil => exact List.nodup_nil
  | cons e es ih =>
      rw [firstBy]
      split_ifs with hseen
      · exact ih seen
      · rw [List.map_cons, List.nodup_cons]
        refine ⟨fun hmem => ?_, ih _⟩
        exact (mem_map_firstBy.mp hmem).2 List.mem_cons_self

/-! ## Numbered lists -/

/-- `k` satisfies `P`, stands at position `i` and nowhere before. -/
def FirstAt (P : K → Bool) (ks : List K) (i : ℕ) (k : K) : Prop :=
  ks[i]? = some k ∧ P k = true ∧ k ∉ ks.take i

instance (P : K → Bool) (ks : List K) (i : ℕ) (k : K) :
    Decidable (FirstAt P ks i k) :=
  inferInstanceAs (Decidable (_ ∧ _ ∧ _))

omit [DecidableEq K] in
theorem firstAt_zero {P : K → Bool} {ks : List K} {k k' : K} :
    FirstAt P (k :: ks) 0 k' ↔ k = k' ∧ P k' = true := by
  simp [FirstAt]

omit [DecidableEq K] in
theorem firstAt_succ {P : K → Bool} {ks : List K} {i : ℕ} {k k' : K} :
    FirstAt P (k :: ks) (i + 1) k' ↔ k' ≠ k ∧ FirstAt P ks i k' := by
  simp only [FirstAt, List.getElem?_cons_succ, List.take_succ_cons,
    List.mem_cons, not_or]
  tauto

omit [DecidableEq K] in
/-- Every key that occurs has a first position. -/
theorem exists_firstAt_iff {P : K → Bool} {ks : List K} {k : K} :
    (∃ i, FirstAt P ks i k) ↔ k ∈ ks ∧ P k = true := by
  constructor
  · rintro ⟨i, hi, hP, -⟩
    exact ⟨List.mem_of_getElem? hi, hP⟩
  · rintro ⟨hmem, hP⟩
    induction ks with
    | nil => cases hmem
    | cons k₀ ks ih =>
        by_cases heq : k₀ = k
        · exact ⟨0, firstAt_zero.mpr ⟨heq, hP⟩⟩
        · have htail : k ∈ ks := (List.mem_cons.mp hmem).resolve_left (Ne.symm heq)
          obtain ⟨i, hi⟩ := ih htail
          exact ⟨i + 1, firstAt_succ.mpr ⟨Ne.symm heq, hi⟩⟩

omit [DecidableEq K] in
theorem exists_firstAt_cons {P : K → Bool} {ks : List K} {n j : ℕ} {k₀ k : K} :
    (∃ i, j = n + i ∧ FirstAt P (k₀ :: ks) i k) ↔
      (k₀ = k ∧ j = n ∧ P k = true) ∨
        k ≠ k₀ ∧ ∃ i, j = n + 1 + i ∧ FirstAt P ks i k := by
  constructor
  · rintro ⟨_ | i, rfl, hi⟩
    · obtain ⟨heq, hP⟩ := firstAt_zero.mp hi
      exact .inl ⟨heq, rfl, hP⟩
    · obtain ⟨hne, hi⟩ := firstAt_succ.mp hi
      exact .inr ⟨hne, i, by omega, hi⟩
  · rintro (⟨heq, rfl, hP⟩ | ⟨hne, i, rfl, hi⟩)
    · exact ⟨0, rfl, firstAt_zero.mpr ⟨heq, hP⟩⟩
    · exact ⟨i + 1, by omega, firstAt_succ.mpr ⟨hne, hi⟩⟩

/-- Of the numbered keys with `P`, those are kept that stand at their first
position. -/
theorem mem_firstBy_zipIdx {P : K → Bool} {seen ks : List K} {n j : ℕ} {k : K} :
    (k, j) ∈ firstBy Prod.fst seen ((ks.zipIdx n).filter (P ·.1)) ↔
      k ∉ seen ∧ ∃ i, j = n + i ∧ FirstAt P ks i k := by
  induction ks generalizing seen n with
  | nil => simp [firstBy, FirstAt]
  | cons k₀ ks ih =>
      rw [exists_firstAt_cons, List.zipIdx_cons]
      by_cases hP : P k₀ = true
      · rw [List.filter_cons_of_pos (by exact hP), firstBy]
        split_ifs with hseen
        · rw [ih]
          refine and_congr_right fun hk => ?_
          have hne : k ≠ k₀ := fun heq => hk (heq ▸ hseen)
          simp [hne, Ne.symm hne]
        · rw [List.mem_cons, ih, List.mem_cons, not_or, Prod.mk.injEq]
          constructor
          · rintro (⟨rfl, rfl⟩ | ⟨⟨hne, hk⟩, hi⟩)
            · exact ⟨hseen, .inl ⟨rfl, rfl, hP⟩⟩
            · exact ⟨hk, .inr ⟨hne, hi⟩⟩
          · rintro ⟨hk, ⟨rfl, rfl, -⟩ | ⟨hne, hi⟩⟩
            · exact .inl ⟨rfl, rfl⟩
            · exact .inr ⟨⟨hne, hk⟩, hi⟩
      · rw [List.filter_cons_of_neg (by exact hP), ih]
        refine and_congr_right fun _ => ?_
        constructor
        · rintro ⟨i, hj, hi⟩
          have hne : k ≠ k₀ := fun heq => hP (heq ▸ hi.2.1)
          exact .inr ⟨hne, i, hj, hi⟩
        · rintro (⟨rfl, -, hk⟩ | ⟨-, hi⟩)
          · exact absurd hk hP
          · exact hi

/-- The numbers that are kept differ. -/
theorem nodup_map_snd_firstBy (P : K → Bool) (seen ks : List K) (n : ℕ) :
    ((firstBy Prod.fst seen ((ks.zipIdx n).filter (P ·.1))).map
      Prod.snd).Nodup := by
  have hsub : (firstBy Prod.fst seen ((ks.zipIdx n).filter (P ·.1))).Sublist
      (ks.zipIdx n) := (firstBy_sublist seen _).trans List.filter_sublist
  apply (hsub.map Prod.snd).nodup
  rw [List.zipIdx_map_snd]
  exact List.nodup_range'

end TTSR.Foundation.FirstOccurrence
