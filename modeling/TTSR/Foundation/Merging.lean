import Mathlib.Data.List.Sort
import Mathlib.Tactic.SplitIfs
import Mathlib.Tactic.Linarith
import Mathlib.Tactic.Ring
import Mathlib.Algebra.BigOperators.Group.List.Basic

/-!
# Merge lists

A list that absorbs one element at a time: the first member that the newcomer
hits is bumped, and a newcomer that hits nothing is appended. Afterwards the
list is ranked by a key and cut.

- `absorb_cases`: what one absorption does.
- `absorb_map`, `rank_map`, `sliceTo_map`: projections of the elements commute
  with all three operations, so a list may carry data that no operation reads.
- `landings`: the places where a sequence of newcomers lands.
-/

namespace TTSR.Foundation.Merging

variable {E F : Type*}

/-- Bump the first element that is hit, or append the newcomer. -/
def absorb (hit : E → Bool) (bump : E → E) (new : E) : List E → List E
  | [] => [new]
  | e :: es => if hit e then bump e :: es else e :: absorb hit bump new es

/-- `sort(key=key, reverse=True)`: descending, and stable. -/
def rank (key : E → ℤ) (es : List E) : List E :=
  es.insertionSort fun a b => key b ≤ key a

/-- `xs[:k]`: a negative bound counts from the end. -/
def sliceTo (k : ℤ) (xs : List E) : List E :=
  xs.take (if 0 ≤ k then k else xs.length + k).toNat

/-- `xs[k:]`. -/
def sliceFrom (k : ℤ) (xs : List E) : List E :=
  xs.drop (if 0 ≤ k then k else xs.length + k).toNat

/-! ## Absorbing one element -/

section Absorb

variable {hit : E → Bool} {bump : E → E} {new : E}

theorem absorb_of_hit {pre post : List E} {e : E}
    (hpre : ∀ x ∈ pre, hit x = false) (he : hit e = true) :
    absorb hit bump new (pre ++ e :: post) = pre ++ bump e :: post := by
  induction pre with
  | nil => simp [absorb, he]
  | cons x pre ih =>
      have hx : hit x = false := hpre x List.mem_cons_self
      have htail : ∀ y ∈ pre, hit y = false :=
        fun y hy => hpre y (List.mem_cons_of_mem _ hy)
      simp [absorb, hx, ih htail]

theorem absorb_of_miss {es : List E} (hmiss : ∀ x ∈ es, hit x = false) :
    absorb hit bump new es = es ++ [new] := by
  induction es with
  | nil => rfl
  | cons x es ih =>
      have hx : hit x = false := hmiss x List.mem_cons_self
      have htail : ∀ y ∈ es, hit y = false :=
        fun y hy => hmiss y (List.mem_cons_of_mem _ hy)
      simp [absorb, hx, ih htail]

/-- A list either has a first element that is hit, or none. -/
theorem exists_first_hit (hit : E → Bool) (es : List E) :
    (∃ pre e post, es = pre ++ e :: post ∧ (∀ x ∈ pre, hit x = false) ∧
      hit e = true) ∨ ∀ x ∈ es, hit x = false := by
  induction es with
  | nil => exact Or.inr (by simp)
  | cons x es ih =>
      cases hx : hit x with
      | true => exact Or.inl ⟨[], x, es, rfl, by simp, hx⟩
      | false =>
          rcases ih with ⟨pre, e, post, rfl, hpre, he⟩ | hmiss
          · refine Or.inl ⟨x :: pre, e, post, rfl, ?_, he⟩
            exact List.forall_mem_cons.mpr ⟨hx, hpre⟩
          · exact Or.inr (List.forall_mem_cons.mpr ⟨hx, hmiss⟩)

/-- Everything an absorption can do. -/
theorem absorb_cases (hit : E → Bool) (bump : E → E) (new : E) (es : List E) :
    (∃ pre e post, es = pre ++ e :: post ∧ (∀ x ∈ pre, hit x = false) ∧
      hit e = true ∧ absorb hit bump new es = pre ++ bump e :: post) ∨
    ((∀ x ∈ es, hit x = false) ∧ absorb hit bump new es = es ++ [new]) := by
  rcases exists_first_hit hit es with ⟨pre, e, post, rfl, hpre, he⟩ | hmiss
  · exact Or.inl ⟨pre, e, post, rfl, hpre, he, absorb_of_hit hpre he⟩
  · exact Or.inr ⟨hmiss, absorb_of_miss hmiss⟩

/-- A property of the elements that bumping keeps and the newcomer has. -/
theorem forall_mem_absorb {P : E → Prop} {es : List E}
    (hes : ∀ e ∈ es, P e) (hbump : ∀ e ∈ es, P e → P (bump e)) (hnew : P new) :
    ∀ e ∈ absorb hit bump new es, P e := by
  rcases absorb_cases hit bump new es with
    ⟨pre, e, post, rfl, -, -, heq⟩ | ⟨-, heq⟩
  · intro x hx
    rw [heq, List.mem_append, List.mem_cons] at hx
    rcases hx with hx | rfl | hx
    · exact hes x (List.mem_append_left _ hx)
    · have he : e ∈ pre ++ e :: post := by simp
      exact hbump e he (hes e he)
    · exact hes x (List.mem_append_right _ (List.mem_cons_of_mem _ hx))
  · intro x hx
    rw [heq, List.mem_append, List.mem_singleton] at hx
    rcases hx with hx | rfl
    · exact hes x hx
    · exact hnew

/-- A weight that bumping raises by one, and that is one for a newcomer, grows
by one in total. -/
theorem sum_absorb {weight : E → ℤ} (hbump : ∀ e, weight (bump e) = weight e + 1)
    (hnew : weight new = 1) (es : List E) :
    ((absorb hit bump new es).map weight).sum = (es.map weight).sum + 1 := by
  rcases absorb_cases hit bump new es with
    ⟨pre, e, post, rfl, -, -, heq⟩ | ⟨-, heq⟩
  · rw [heq]
    simp only [List.map_append, List.map_cons, List.sum_append, List.sum_cons,
      hbump]
    ring
  · simp [heq, hnew]

/-- Absorption commutes with a projection that the hits factor through. -/
theorem absorb_map {hit' : F → Bool} {bump' : F → F} (f : E → F)
    (hhit : ∀ e, hit e = hit' (f e)) (hbump : ∀ e, f (bump e) = bump' (f e))
    (new : E) (es : List E) :
    (absorb hit bump new es).map f = absorb hit' bump' (f new) (es.map f) := by
  induction es with
  | nil => rfl
  | cons e es ih =>
      simp only [absorb, List.map_cons, hhit]
      split_ifs
      · rw [List.map_cons, hbump]
      · rw [List.map_cons, ih]

end Absorb

/-! ## Where newcomers land -/

section Landings

variable {K H : Type*}

/-- The positions at which newcomers with the given keys land, one after the
other. A newcomer that hits nothing lands at the end. -/
def landings (hit : K → K → Bool) : List K → List K → List ℕ
  | _, [] => []
  | ks, k :: new =>
      ks.findIdx (hit k) ::
        landings hit (if ks.any (hit k) then ks else ks ++ [k]) new

/-- An absorption touches the position where the newcomer lands and no other. -/
theorem getElem?_absorb (hit : E → Bool) (bump : E → E) (new : E) (es : List E)
    (j : ℕ) :
    (absorb hit bump new es)[j]? =
      if j = es.findIdx hit then some (es[j]?.elim new bump) else es[j]? := by
  induction es generalizing j with
  | nil => cases j <;> simp [absorb]
  | cons e es ih =>
      cases he : hit e with
      | true => cases j <;> simp [absorb, he, List.findIdx_cons]
      | false => cases j <;> simp [absorb, he, List.findIdx_cons, ih]

theorem map_key_absorb {key : E → K} {hit : E → Bool} {bump : E → E}
    (hbump : ∀ e, key (bump e) = key e) (new : E) (es : List E) :
    (absorb hit bump new es).map key =
      if es.any hit then es.map key else es.map key ++ [key new] := by
  induction es with
  | nil => simp [absorb]
  | cons e es ih =>
      cases he : hit e with
      | true => simp [absorb, he, hbump]
      | false =>
          have htail : (absorb hit bump new (e :: es)).map key =
              key e :: (absorb hit bump new es).map key := by simp [absorb, he]
          rw [htail, ih, List.any_cons, he, Bool.false_or]
          split_ifs <;> rfl

/-- Elements that record every landing on them: the record of position `j`
grows by one for each newcomer that lands there. -/
theorem record_foldl_absorb (key : E → K) (record : E → List H) {h : H}
    {bump : E → E} (hit : K → K → Bool) (hkey : ∀ e, key (bump e) = key e)
    (hrecord : ∀ e, record (bump e) = record e ++ [h]) {cs : List E}
    (hnew : ∀ c ∈ cs, record c = [h]) (es : List E) (j : ℕ) {p : E}
    (hp : (cs.foldl (fun es c => absorb (fun e => hit (key c) (key e)) bump c es)
      es)[j]? = some p) :
    record p = (es[j]?.map record).getD [] ++
      List.replicate ((landings hit (es.map key) (cs.map key)).count j) h := by
  induction cs generalizing es with
  | nil =>
      rw [List.foldl_nil] at hp
      simp [hp, landings]
  | cons c cs ih =>
      have hc : record c = [h] := hnew c List.mem_cons_self
      have htail : ∀ c' ∈ cs, record c' = [h] :=
        fun c' hc' => hnew c' (List.mem_cons_of_mem _ hc')
      rw [List.foldl_cons] at hp
      rw [ih htail _ hp, map_key_absorb hkey, getElem?_absorb]
      have hidx : (es.map key).findIdx (hit (key c)) =
          es.findIdx fun e => hit (key c) (key e) := by
        rw [List.findIdx_map]
        rfl
      have hany : (es.map key).any (hit (key c)) =
          es.any fun e => hit (key c) (key e) := by
        rw [List.any_map]
        rfl
      simp only [List.map_cons, landings, hidx, hany, List.count_cons]
      by_cases hj : j = es.findIdx fun e => hit (key c) (key e)
      · -- the newcomer lands here: one more entry in the record
        have hone : (if (es.findIdx fun e => hit (key c) (key e)) == j then 1
            else 0) = 1 := if_pos (by simp [hj])
        rw [if_pos hj, hone, Nat.add_comm, List.replicate_add,
          ← List.append_assoc]
        congr 1
        cases hget : es[j]? with
        | none => simp [hc]
        | some e => simp [hrecord]
      · have hne : (es.findIdx fun e => hit (key c) (key e)) ≠ j := Ne.symm hj
        simp [hj, hne]

end Landings

/-! ## Ranking and cutting -/

theorem rank_perm (key : E → ℤ) (es : List E) : (rank key es).Perm es :=
  List.perm_insertionSort _ es

theorem mem_rank {key : E → ℤ} {es : List E} {e : E} :
    e ∈ rank key es ↔ e ∈ es := (rank_perm key es).mem_iff

theorem rank_sorted (key : E → ℤ) (es : List E) :
    (rank key es).Pairwise fun a b => key b ≤ key a := by
  have htotal : Std.Total fun a b : E => key b ≤ key a :=
    ⟨fun a b => le_total (key b) (key a)⟩
  have htrans : IsTrans E fun a b : E => key b ≤ key a :=
    ⟨fun _ _ _ hab hbc => le_trans hbc hab⟩
  exact List.pairwise_insertionSort _ es

/-- Inserting before the first element of no higher rank passes only elements of
a higher rank. -/
theorem orderedInsert_stable {key : E → ℤ} {R : E → E → Prop} {a : E}
    {l : List E} (ha : ∀ b ∈ l, R a b)
    (hl : l.Pairwise fun a b => key a = key b → R a b) :
    (l.orderedInsert (fun a b => key b ≤ key a) a).Pairwise
      fun a b => key a = key b → R a b := by
  induction l with
  | nil => simp
  | cons b l ih =>
      rw [List.pairwise_cons] at hl
      have htail : ∀ c ∈ l, R a c := fun c hc => ha c (List.mem_cons_of_mem _ hc)
      rw [List.orderedInsert]
      split_ifs with hab
      · rw [List.pairwise_cons, List.pairwise_cons]
        exact ⟨fun c hc _ => ha c hc, hl⟩
      · rw [List.pairwise_cons]
        refine ⟨?_, ih htail hl.2⟩
        intro c hc heq
        rcases (List.mem_orderedInsert _).mp hc with rfl | hc
        · exact absurd heq.le hab
        · exact hl.1 c hc heq

/-- What holds between an element and the later ones still holds after ranking
among elements of one rank: the sort is stable. -/
theorem rank_stable {key : E → ℤ} {R : E → E → Prop} {es : List E}
    (h : es.Pairwise R) :
    (rank key es).Pairwise fun a b => key a = key b → R a b := by
  induction es with
  | nil => exact List.Pairwise.nil
  | cons a es ih =>
      rw [List.pairwise_cons] at h
      rw [rank, List.insertionSort_cons]
      exact orderedInsert_stable (fun b hb => h.1 b (mem_rank.mp hb)) (ih h.2)

theorem rank_map {key : E → ℤ} {key' : F → ℤ} (f : E → F)
    (hkey : ∀ e, key e = key' (f e)) (es : List E) :
    (rank key es).map f = rank key' (es.map f) := by
  apply List.map_insertionSort
  intro a _ b _
  rw [hkey, hkey]

theorem sliceTo_sublist (k : ℤ) (xs : List E) : (sliceTo k xs).Sublist xs :=
  List.take_sublist _ xs

theorem length_sliceTo_le {k : ℤ} (hk : 0 ≤ k) (xs : List E) :
    ((sliceTo k xs).length : ℤ) ≤ k := by
  rw [sliceTo, if_pos hk, List.length_take]
  omega

/-- What is cut off comes after all that is kept, and as much is kept as there
is room for. -/
theorem mem_sliceTo_or {k : ℤ} (hk : 0 ≤ k) {R : E → E → Prop} {xs : List E}
    (hsorted : xs.Pairwise R) {x : E} (hx : x ∈ xs) :
    x ∈ sliceTo k xs ∨
      ((sliceTo k xs).length : ℤ) = k ∧ ∀ y ∈ sliceTo k xs, R y x := by
  rw [sliceTo, if_pos hk]
  rw [← List.take_append_drop k.toNat xs] at hsorted hx
  rcases List.mem_append.mp hx with hkept | hcut
  · exact Or.inl hkept
  · refine Or.inr ⟨?_, fun y hy => (List.pairwise_append.mp hsorted).2.2 y hy x hcut⟩
    have hlong : k.toNat < xs.length := by
      have hpos := List.length_pos_of_mem hcut
      rw [List.length_drop] at hpos
      omega
    rw [List.length_take]
    omega

/-- The two slices at one place, as a prefix and the rest. -/
theorem exists_slice_eq {xs : List E} (hne : xs ≠ []) (k : ℤ) :
    ∃ n, sliceTo k xs = xs.take n ∧ sliceFrom k xs = xs.drop n ∧
      (n < xs.length ↔ k < xs.length) := by
  have hpos := List.length_pos_of_ne_nil hne
  refine ⟨_, rfl, rfl, ?_⟩
  split_ifs with hk
  · omega
  · omega

theorem sliceTo_map (f : E → F) (k : ℤ) (xs : List E) :
    (sliceTo k xs).map f = sliceTo k (xs.map f) := by
  simp [sliceTo, List.map_take]

end TTSR.Foundation.Merging
