import Mathlib.Data.List.Lex
import Mathlib.Data.List.Sort
import Mathlib.Algebra.Order.Group.Multiset
import Mathlib.Data.Prod.Lex
import Mathlib.Algebra.Order.BigOperators.Group.List
import Mathlib.Algebra.Order.Group.Int
import Mathlib.Data.Int.ConditionallyCompleteOrder
import Mathlib.Tactic.Push
import TTSR.Foundation.Differencing
import TTSR.Trainer.DataProto

/-!
# Balanced partitions

`karmarkar_karp` deals sequences out to ranks. Every state is a list of `k` sets
in descending order of their sums; two states are merged by adding the smallest
set of one to the largest of the other. With equal sizes the first states are
runs of `k` neighbours in the sorted list, so no final set is further from
another than the widest run.
-/

namespace TTSR.Trainer

open TTSR.Foundation TTSR.Foundation.Differencing

namespace KarmarkarKarp

/-- `Set`: items with their values, and the sum of the values. -/
structure ItemSet where
  sum : ℤ
  items : List (ℕ × ℤ)
  sum_eq : sum = (items.map Prod.snd).sum

namespace ItemSet

def empty : ItemSet := ⟨0, [], rfl⟩

def add (s : ItemSet) (item : ℕ × ℤ) : ItemSet where
  sum := s.sum + item.2
  items := s.items ++ [item]
  sum_eq := by simp [s.sum_eq]

def merge (s other : ItemSet) : ItemSet := other.items.foldl add s

/-- `__lt__`. Items are compared as lists of pairs. -/
def lt (s other : ItemSet) : Bool :=
  if s.sum ≠ other.sum then s.sum < other.sum
  else if s.items.length ≠ other.items.length then
    s.items.length < other.items.length
  else s.items.map toLex < other.items.map toLex

/-- What sets are compared by, in this order. -/
def key (s : ItemSet) : ℤ ×ₗ ℕ ×ₗ List (ℕ ×ₗ ℤ) :=
  toLex (s.sum, toLex (s.items.length, s.items.map toLex))

theorem lt_eq_decide (s other : ItemSet) :
    s.lt other = decide (s.key < other.key) := by
  rw [Bool.eq_iff_iff, decide_eq_true_iff, key, key, Prod.Lex.toLex_lt_toLex,
    Prod.Lex.toLex_lt_toLex, lt]
  split_ifs with hsum hlength
  · simp [hsum]
  · simp [not_not.mp hsum, hlength]
  · simp [not_not.mp hsum, not_not.mp hlength]

theorem foldl_add (items : List (ℕ × ℤ)) (s : ItemSet) :
    (items.foldl add s).items = s.items ++ items := by
  induction items generalizing s with
  | nil => simp
  | cons item items ih =>
      rw [List.foldl_cons, ih]
      simp [add]

@[simp] theorem items_merge (s other : ItemSet) :
    (s.merge other).items = s.items ++ other.items := foldl_add other.items s

@[simp] theorem sum_merge (s other : ItemSet) :
    (s.merge other).sum = s.sum + other.sum := by
  rw [sum_eq, items_merge, List.map_append, List.sum_append, ← s.sum_eq,
    ← other.sum_eq]

end ItemSet

/-- `sorted(sets, reverse=True)`. -/
def sortSets (sets : List ItemSet) : List ItemSet :=
  sets.insertionSort fun s other => s.lt other = false

theorem sortSets_perm (sets : List ItemSet) : (sortSets sets).Perm sets :=
  List.perm_insertionSort _ _

theorem ItemSet.lt_eq_false_iff {s other : ItemSet} :
    s.lt other = false ↔ other.key ≤ s.key := by
  rw [ItemSet.lt_eq_decide, decide_eq_false_iff_not, not_lt]

theorem ItemSet.sum_le_of_key_le {s other : ItemSet} (h : other.key ≤ s.key) :
    other.sum ≤ s.sum := by
  rw [ItemSet.key, ItemSet.key, Prod.Lex.toLex_le_toLex] at h
  rcases h with h | h
  · exact h.le
  · exact h.1.le

theorem sortSets_sorted (sets : List ItemSet) :
    (sortSets sets).Pairwise fun s other => other.key ≤ s.key := by
  have : Std.Total fun s other : ItemSet => s.lt other = false :=
    ⟨fun s other => by
      simpa only [ItemSet.lt_eq_false_iff] using le_total other.key s.key⟩
  have : IsTrans ItemSet fun s other => s.lt other = false :=
    ⟨fun s t u hst htu => by
      rw [ItemSet.lt_eq_false_iff] at hst htu ⊢
      exact htu.trans hst⟩
  exact (List.pairwise_insertionSort _ sets).imp ItemSet.lt_eq_false_iff.mp

/-- `State`: the sets, in descending order. -/
structure State where
  sets : List ItemSet
  sorted : sets.Pairwise fun s other => other.key ≤ s.key

namespace State

/-- The sets of one item each, and empty ones up to `k`. -/
def ofItems (k : ℕ) (items : List (ℕ × ℤ)) : Except Raised State :=
  if items.length ≠ 1 ∧ items.length ≠ k then .error .assertionError
  else if k < items.length then .error .indexError
  else .ok ⟨sortSets (items.map ItemSet.empty.add ++
    List.replicate (k - items.length) .empty), sortSets_sorted _⟩

def getPartitions (s : State) : List (List ℕ) :=
  s.sets.map fun set => set.items.map Prod.fst

/-- The first set meets the last one of the other state, and so on. -/
def merge (s other : State) : State where
  sets := sortSets (List.zipWith ItemSet.merge s.sets other.sets.reverse)
  sorted := sortSets_sorted _

def spread (s : State) : ℤ :=
  (s.sets.head?.map (·.sum)).getD 0 - (s.sets.getLast?.map (·.sum)).getD 0

/-- `__lt__`: the wider state comes first, then the one with the larger set. -/
def lt (s other : State) : Bool :=
  if s.spread ≠ other.spread then other.spread < s.spread
  else match s.sets.head?, other.sets.head? with
    | some set, some set' => set'.lt set
    | _, _ => false

end State

end KarmarkarKarp

open KarmarkarKarp

/-- `sorted([(seqlen, i) for i, seqlen in enumerate(seqlen_list)])`, each pair
turned into an item. -/
def sortedItems (seqlens : List ℤ) : List (ℕ × ℤ) :=
  ((seqlens.zipIdx.map toLex).insertionSort (· ≤ ·)).map fun p =>
    ((ofLex p).2, (ofLex p).1)

/-- The states that are pushed first. -/
def firstStates (seqlens : List ℤ) (k : ℕ) (equalSize : Bool) :
    Except Raised (List State) :=
  if equalSize then
    if k = 0 then .error .zeroDivisionError
    else if seqlens.length % k ≠ 0 then .error .assertionError
    else (List.range (seqlens.length / k)).mapM fun j =>
      State.ofItems k (((sortedItems seqlens).drop (j * k)).take k)
  else (sortedItems seqlens).mapM fun item => State.ofItems k [item]

def karmarkarKarp (seqlens : List ℤ) (k : ℕ) (equalSize : Bool) :
    Except Raised (List (List ℕ)) := do
  let states ← firstStates seqlens k equalSize
  match drain State.lt State.merge states.length states with
  | none => .error .indexError
  | some finalState =>
      let partitions := finalState.getPartitions
      if equalSize && partitions.any (·.length * k != seqlens.length) then
        .error .assertionError
      else .ok partitions

/-- `_check_and_sort_partitions`. -/
def checkAndSortPartitions (n k : ℕ) (partitions : List (List ℕ)) :
    Except Raised (List (List ℕ)) :=
  if partitions.length ≠ k then .error .assertionError
  else if partitions.any (·.isEmpty) then .error .assertionError
  else if partitions.flatten.any (n ≤ ·) ||
      (List.range n).any (· ∉ partitions.flatten) then .error .assertionError
  else .ok (partitions.map (·.insertionSort (· ≤ ·)))

def getSeqlenBalancedPartitions (seqlens : List ℤ) (k : ℕ) (equalSize : Bool) :
    Except Raised (List (List ℕ)) :=
  if seqlens.length < k then .error .assertionError
  else karmarkarKarp seqlens k equalSize >>=
    checkAndSortPartitions seqlens.length k

/-! ## Merging states -/

namespace KarmarkarKarp

/-- The items of a state. -/
def State.items (s : State) : Multiset (ℕ × ℤ) :=
  ↑(s.sets.flatMap (·.items))

/-- The sets all have one size. -/
def State.EqualSize (s : State) : Prop :=
  ∃ size, ∀ set ∈ s.sets, set.items.length = size

/-- No set is empty, or none has a second item. -/
def State.Even (s : State) : Prop :=
  (∀ set ∈ s.sets, set.items ≠ []) ∨ ∀ set ∈ s.sets, set.items.length ≤ 1

def State.NonNeg (s : State) : Prop :=
  ∀ set ∈ s.sets, ∀ item ∈ set.items, 0 ≤ item.2

/-- What every state is like: `k` sets, no two further apart than `d`, of one
size or dealt out evenly. -/
structure State.Inv (k : ℕ) (d : ℤ) (equalSize : Bool) (s : State) : Prop where
  length : s.sets.length = k
  spread : SpreadLE d (s.sets.map (·.sum))
  shape : if equalSize then s.EqualSize else s.NonNeg ∧ s.Even

/-- A merged set comes from two places that count up to `k`. -/
theorem exists_of_mem_merge {k : ℕ} {s other : State} {set : ItemSet}
    (hs : s.sets.length = k) (hother : other.sets.length = k)
    (h : set ∈ (s.merge other).sets) :
    ∃ i j, ∃ (hi : i < s.sets.length) (hj : j < other.sets.length),
      i + j + 1 = k ∧ set = s.sets[i].merge other.sets[j] := by
  rw [State.merge, (sortSets_perm _).mem_iff] at h
  obtain ⟨i, hi, rfl⟩ := List.getElem_of_mem h
  rw [List.length_zipWith, List.length_reverse] at hi
  have hik : i < k := by omega
  refine ⟨i, k - 1 - i, by omega, by omega, by omega, ?_⟩
  rw [List.getElem_zipWith, List.getElem_reverse]
  congr 2
  omega

theorem equalSize_merge {k : ℕ} {s other : State} (hs : s.sets.length = k)
    (hother : other.sets.length = k) (hsize : s.EqualSize)
    (hsize' : other.EqualSize) : (s.merge other).EqualSize := by
  obtain ⟨c, hc⟩ := hsize
  obtain ⟨c', hc'⟩ := hsize'
  refine ⟨c + c', fun set hset => ?_⟩
  obtain ⟨i, j, hi, hj, -, rfl⟩ := exists_of_mem_merge hs hother hset
  rw [ItemSet.items_merge, List.length_append, hc _ (List.getElem_mem hi),
    hc' _ (List.getElem_mem hj)]

theorem nonNeg_merge {k : ℕ} {s other : State} (hs : s.sets.length = k)
    (hother : other.sets.length = k) (hnonneg : s.NonNeg)
    (hnonneg' : other.NonNeg) : (s.merge other).NonNeg := by
  intro set hset item hitem
  obtain ⟨i, j, hi, hj, -, rfl⟩ := exists_of_mem_merge hs hother hset
  rw [ItemSet.items_merge, List.mem_append] at hitem
  rcases hitem with hitem | hitem
  · exact hnonneg _ (List.getElem_mem hi) item hitem
  · exact hnonneg' _ (List.getElem_mem hj) item hitem

/-- Without negative values the empty sets come last. -/
theorem eq_nil_of_le {s : State} (hnonneg : s.NonNeg) {i j : ℕ}
    (hi : i < s.sets.length) (hj : j < s.sets.length) (hij : i ≤ j)
    (hempty : s.sets[i].items = []) : s.sets[j].items = [] := by
  rcases Nat.eq_or_lt_of_le hij with rfl | hlt
  · exact hempty
  have hkey := List.pairwise_iff_getElem.mp s.sorted i j hi hj hlt
  have hsum : s.sets[i].sum = 0 := by rw [ItemSet.sum_eq, hempty]; rfl
  have hpos : 0 ≤ s.sets[j].sum := by
    rw [ItemSet.sum_eq]
    apply List.sum_nonneg
    intro v hv
    obtain ⟨item, hitem, rfl⟩ := List.mem_map.mp hv
    exact hnonneg _ (List.getElem_mem hj) item hitem
  rw [ItemSet.key, ItemSet.key, Prod.Lex.toLex_le_toLex, hsum, hempty] at hkey
  rcases hkey with hneg | ⟨-, hrest⟩
  · exact absurd hneg (not_lt.mpr hpos)
  · rw [Prod.Lex.toLex_le_toLex] at hrest
    rcases hrest with hlength | ⟨hlength, -⟩
    · exact absurd hlength (Nat.not_lt_zero _)
    · exact List.eq_nil_of_length_eq_zero hlength

/-- If a merged set is empty, then everything behind its two places is empty,
so no merged set gets more than one item. -/
theorem even_merge {k : ℕ} {s other : State} (hs : s.sets.length = k)
    (hother : other.sets.length = k) (hnonneg : s.NonNeg)
    (hnonneg' : other.NonNeg) (heven : s.Even) (heven' : other.Even) :
    (s.merge other).Even := by
  by_cases hfull : ∀ set ∈ (s.merge other).sets, set.items ≠ []
  · exact Or.inl hfull
  push Not at hfull
  obtain ⟨set, hset, hempty⟩ := hfull
  obtain ⟨i, j, hi, hj, hij, rfl⟩ := exists_of_mem_merge hs hother hset
  rw [ItemSet.items_merge, List.append_eq_nil_iff] at hempty
  obtain ⟨hemptyI, hemptyJ⟩ := hempty
  have hthin : ∀ set ∈ s.sets, set.items.length ≤ 1 :=
    heven.resolve_left fun h => h _ (List.getElem_mem hi) hemptyI
  have hthin' : ∀ set ∈ other.sets, set.items.length ≤ 1 :=
    heven'.resolve_left fun h => h _ (List.getElem_mem hj) hemptyJ
  apply Or.inr
  intro set hset
  obtain ⟨i', j', hi', hj', hij', rfl⟩ := exists_of_mem_merge hs hother hset
  rw [ItemSet.items_merge, List.length_append]
  rcases Nat.le_total i i' with hle | hle
  · rw [eq_nil_of_le hnonneg hi hi' hle hemptyI]
    simpa using hthin' _ (List.getElem_mem hj')
  · rw [eq_nil_of_le hnonneg' hj hj' (by omega) hemptyJ]
    simpa using hthin _ (List.getElem_mem hi')

theorem spread_merge {d : ℤ} {s other : State}
    (hspread : SpreadLE d (s.sets.map (·.sum)))
    (hspread' : SpreadLE d (other.sets.map (·.sum))) :
    SpreadLE d ((s.merge other).sets.map (·.sum)) := by
  have hsorted : ∀ s : State, (s.sets.map (·.sum)).Pairwise (· ≥ ·) := fun s =>
    List.pairwise_map.mpr (s.sorted.imp ItemSet.sum_le_of_key_le)
  have hzip := spread_add_reverse (hsorted s) (hsorted other) hspread hspread'
  rw [← List.map_reverse, List.zipWith_map] at hzip
  have hsums : (List.zipWith ItemSet.merge s.sets other.sets.reverse).map
      (·.sum) = List.zipWith (fun a b : ItemSet => a.sum + b.sum) s.sets
        other.sets.reverse := by
    rw [List.map_zipWith]
    simp only [ItemSet.sum_merge]
  intro u hu v hv
  rw [State.merge] at hu hv
  have hperm := (sortSets_perm (List.zipWith ItemSet.merge s.sets
    other.sets.reverse)).map (·.sum)
  rw [hperm.mem_iff, hsums] at hu hv
  exact hzip u hu v hv

/-- No item is lost and none is added. -/
theorem items_merge {k : ℕ} {s other : State} (hs : s.sets.length = k)
    (hother : other.sets.length = k) :
    (s.merge other).items = s.items + other.items := by
  have hzip : ∀ xs ys : List ItemSet, xs.length = ys.length →
      (↑((List.zipWith ItemSet.merge xs ys).flatMap (·.items)) :
        Multiset (ℕ × ℤ)) =
        ↑(xs.flatMap (·.items)) + ↑(ys.flatMap (·.items)) := by
    intro xs
    induction xs with
    | nil =>
        intro ys hlength
        obtain rfl := List.eq_nil_of_length_eq_zero hlength.symm
        simp
    | cons x xs ih =>
        intro ys hlength
        cases ys with
        | nil => cases hlength
        | cons y ys =>
            have hrest := ih ys (Nat.succ.inj hlength)
            simp only [List.zipWith_cons_cons, List.flatMap_cons,
              ItemSet.items_merge, ← Multiset.coe_add, hrest]
            exact add_add_add_comm _ _ _ _
  have hsort := (sortSets_perm (List.zipWith ItemSet.merge s.sets
    other.sets.reverse)).flatMap_right (·.items)
  have hreverse := (List.reverse_perm other.sets).flatMap_right (·.items)
  rw [State.items, State.merge, Multiset.coe_eq_coe.mpr hsort,
    hzip _ _ (by rw [List.length_reverse, hs, hother]),
    Multiset.coe_eq_coe.mpr hreverse]
  rfl

theorem inv_merge {k : ℕ} {d : ℤ} {equalSize : Bool} {s other : State}
    (h : s.Inv k d equalSize) (h' : other.Inv k d equalSize) :
    (s.merge other).Inv k d equalSize where
  length := by
    rw [State.merge, (sortSets_perm _).length_eq, List.length_zipWith,
      List.length_reverse, h.length, h'.length, min_self]
  spread := spread_merge h.spread h'.spread
  shape := by
    have hshape := h.shape
    have hshape' := h'.shape
    cases equalSize with
    | true => exact equalSize_merge h.length h'.length hshape hshape'
    | false => exact ⟨nonNeg_merge h.length h'.length hshape.1 hshape'.1,
        even_merge h.length h'.length hshape.1 hshape'.1 hshape.2 hshape'.2⟩

/-! ## The first states -/

theorem mem_sets_ofItems {k : ℕ} {items : List (ℕ × ℤ)} {s : State}
    (h : State.ofItems k items = .ok s) :
    items.length ≤ k ∧ s.sets.Perm (items.map ItemSet.empty.add ++
      List.replicate (k - items.length) .empty) := by
  rw [State.ofItems] at h
  split_ifs at h with hassert hlength
  obtain rfl := Except.ok.inj h
  exact ⟨Nat.not_lt.mp hlength, sortSets_perm _⟩

theorem items_ofItems {k : ℕ} {items : List (ℕ × ℤ)} {s : State}
    (h : State.ofItems k items = .ok s) : s.items = ↑items := by
  have hperm := (mem_sets_ofItems h).2.flatMap_right (·.items)
  have hempty : (List.replicate (k - items.length) ItemSet.empty).flatMap
      (·.items) = [] := by
    rw [List.flatMap_eq_nil_iff]
    intro set hset
    rw [List.eq_of_mem_replicate hset]
    rfl
  have hsingle : (items.map ItemSet.empty.add).flatMap (·.items) = items := by
    rw [List.flatMap_map]
    exact List.flatMap_singleton' items
  rw [State.items, Multiset.coe_eq_coe.mpr hperm, List.flatMap_append, hsingle,
    hempty, List.append_nil]

theorem length_ofItems {k : ℕ} {items : List (ℕ × ℤ)} {s : State}
    (h : State.ofItems k items = .ok s) : s.sets.length = k := by
  obtain ⟨hle, hperm⟩ := mem_sets_ofItems h
  rw [hperm.length_eq, List.length_append, List.length_map,
    List.length_replicate]
  omega

/-- A run of `k` items makes sets of one item each. -/
theorem inv_ofItems_run {k : ℕ} {d : ℤ} {items : List (ℕ × ℤ)} {s : State}
    (h : State.ofItems k items = .ok s) (hlength : items.length = k)
    (hspread : SpreadLE d (items.map Prod.snd)) : s.Inv k d true where
  length := length_ofItems h
  spread := by
    have hperm := ((mem_sets_ofItems h).2).map (·.sum)
    have hsums : (items.map ItemSet.empty.add ++
        List.replicate (k - items.length) ItemSet.empty).map (·.sum) =
          items.map Prod.snd := by
      rw [hlength, Nat.sub_self, List.replicate_zero, List.append_nil,
        List.map_map]
      apply List.map_congr_left
      intro item _
      simp [ItemSet.add, ItemSet.empty]
    intro u hu v hv
    rw [hperm.mem_iff, hsums] at hu hv
    exact hspread u hu v hv
  shape := by
    refine ⟨1, fun set hset => ?_⟩
    rw [(mem_sets_ofItems h).2.mem_iff, hlength, Nat.sub_self,
      List.replicate_zero, List.append_nil] at hset
    obtain ⟨item, -, rfl⟩ := List.mem_map.mp hset
    rfl

/-- One item makes one set of one item, and empty ones. -/
theorem inv_ofItems_singleton {k : ℕ} {d : ℤ} {item : ℕ × ℤ} {s : State}
    (h : State.ofItems k [item] = .ok s) (hnonneg : 0 ≤ item.2)
    (hd : item.2 ≤ d) : s.Inv k d false := by
  have hmem : ∀ set ∈ s.sets, set = ItemSet.empty.add item ∨ set = .empty := by
    intro set hset
    rw [(mem_sets_ofItems h).2.mem_iff, List.mem_append] at hset
    rcases hset with hset | hset
    · exact Or.inl (by simpa using hset)
    · exact Or.inr (List.eq_of_mem_replicate hset)
  have hsum : ∀ set ∈ s.sets, 0 ≤ set.sum ∧ set.sum ≤ d := by
    intro set hset
    rcases hmem set hset with rfl | rfl
    · simpa [ItemSet.add, ItemSet.empty] using ⟨hnonneg, hd⟩
    · exact ⟨le_rfl, hnonneg.trans hd⟩
  refine ⟨length_ofItems h, ?_, ?_, Or.inr ?_⟩
  · intro u hu v hv
    obtain ⟨set, hset, rfl⟩ := List.mem_map.mp hu
    obtain ⟨set', hset', rfl⟩ := List.mem_map.mp hv
    have := hsum set hset
    have := hsum set' hset'
    omega
  · intro set hset item' hitem'
    rcases hmem set hset with rfl | rfl
    · simp only [ItemSet.add, ItemSet.empty, List.nil_append,
        List.mem_singleton] at hitem'
      exact hitem' ▸ hnonneg
    · cases hitem'
  · intro set hset
    rcases hmem set hset with rfl | rfl
    · exact le_rfl
    · exact Nat.zero_le 1

end KarmarkarKarp

section Partitions

variable {seqlens : List ℤ} {k : ℕ}

/-- The items are the positions of the list with their values. -/
theorem sortedItems_perm (seqlens : List ℤ) :
    (sortedItems seqlens).Perm
      (seqlens.zipIdx.map fun p => (p.2, p.1)) := by
  have hsort := (List.perm_insertionSort (· ≤ ·)
    (seqlens.zipIdx.map toLex)).map fun p : ℤ ×ₗ ℕ => ((ofLex p).2, (ofLex p).1)
  rw [List.map_map] at hsort
  exact hsort

theorem length_sortedItems (seqlens : List ℤ) :
    (sortedItems seqlens).length = seqlens.length := by
  rw [(sortedItems_perm seqlens).length_eq, List.length_map, List.length_zipIdx]

theorem mem_sortedItems {item : ℕ × ℤ} :
    item ∈ sortedItems seqlens ↔ seqlens[item.1]? = some item.2 := by
  rw [(sortedItems_perm seqlens).mem_iff, List.mem_map]
  constructor
  · rintro ⟨⟨v, i⟩, hmem, rfl⟩
    exact List.mem_zipIdx_iff_getElem?.mp hmem
  · intro h
    exact ⟨(item.2, item.1), List.mem_zipIdx_iff_getElem?.mpr h, rfl⟩

/-- The positions, each once. -/
theorem sortedItems_fst_perm (seqlens : List ℤ) :
    ((sortedItems seqlens).map Prod.fst).Perm (List.range seqlens.length) := by
  have hperm := (sortedItems_perm seqlens).map Prod.fst
  rw [List.map_map] at hperm
  refine hperm.trans (.of_eq ?_)
  show seqlens.zipIdx.map Prod.snd = _
  rw [List.zipIdx_map_snd, List.range_eq_range']

/-- The workload of the rank that gets these sequences. -/
def load (seqlens : List ℤ) (part : List ℕ) : ℤ :=
  (part.map fun i => (seqlens[i]?).getD 0).sum

/-- `k` nonempty parts that cover the positions once, no part with more than
`d` above another. -/
structure Balanced (seqlens : List ℤ) (k : ℕ) (d : ℤ)
    (parts : List (List ℕ)) : Prop where
  count : parts.length = k
  cover : parts.flatten.Perm (List.range seqlens.length)
  nonempty : ∀ part ∈ parts, part ≠ []
  sorted : ∀ part ∈ parts, part.Pairwise (· ≤ ·)
  close : ∀ p ∈ parts, ∀ q ∈ parts, load seqlens p ≤ load seqlens q + d

namespace Balanced

variable {seqlens : List ℤ} {k : ℕ} {d : ℤ} {parts : List (List ℕ)}

/-- The parts have all the load together. -/
theorem sum_load (h : Balanced seqlens k d parts) :
    (parts.map (load seqlens)).sum = seqlens.sum := by
  have hflatten : (parts.map (load seqlens)).sum = load seqlens parts.flatten := by
    rw [load, List.map_flatten, List.sum_flatten, List.map_map]
    rfl
  rw [hflatten, load, (h.cover.map _).sum_eq]
  congr 1
  apply List.ext_getElem
  · rw [List.length_map, List.length_range]
  · intro i hi hi'
    rw [List.getElem_map, List.getElem_range, List.getElem?_eq_getElem hi',
      Option.getD_some]

/-- No part has much more than the average load. -/
theorem mul_load_le (h : Balanced seqlens k d parts) {p : List ℕ}
    (hp : p ∈ parts) : k * load seqlens p ≤ seqlens.sum + k * d := by
  have hle : ∀ x ∈ parts.map fun q => load seqlens q + d, load seqlens p ≤ x := by
    intro x hx
    obtain ⟨q, hq, rfl⟩ := List.mem_map.mp hx
    exact h.close p hp q hq
  have hsum := List.card_nsmul_le_sum _ _ hle
  rw [List.length_map, h.count, nsmul_eq_mul, List.sum_map_add, h.sum_load,
    List.map_const', List.sum_replicate, h.count, nsmul_eq_mul] at hsum
  exact hsum

end Balanced

theorem sum_map_coe {α β : Type*} (f : α → List β) (xs : List α) :
    (xs.map fun x => (↑(f x) : Multiset β)).sum = ↑(xs.flatMap f) := by
  induction xs with
  | nil => rfl
  | cons x xs ih =>
      rw [List.map_cons, List.sum_cons, ih, List.flatMap_cons, Multiset.coe_add]

/-- States made of lists of items hold exactly these items. -/
theorem sum_items_of_forall₂ {α : Type*} {f : α → List (ℕ × ℤ)} {xs : List α}
    {states : List State}
    (h : List.Forall₂ (fun x s => State.ofItems k (f x) = .ok s) xs states) :
    (states.map State.items).sum = ↑(xs.flatMap f) := by
  rw [← sum_map_coe]
  induction h with
  | nil => rfl
  | cons hs _ ih => rw [List.map_cons, List.map_cons, List.sum_cons,
      List.sum_cons, items_ofItems hs, ih]

/-- The states that are pushed when the parts shall have one size. -/
theorem firstStates_equal {lo hi : ℤ} (hk : 0 < k) (hn : 0 < seqlens.length)
    (hdvd : k ∣ seqlens.length) (hvalues : ∀ v ∈ seqlens, lo ≤ v ∧ v ≤ hi) :
    ∃ states, firstStates seqlens k true = .ok states ∧ states ≠ [] ∧
      (∀ s ∈ states, s.Inv k (hi - lo) true) ∧
      (states.map State.items).sum = ↑(sortedItems seqlens) := by
  obtain ⟨m, hm⟩ := hdvd
  let run := fun j => ((sortedItems seqlens).drop (j * k)).take k
  have hlength : ∀ j < m, (run j).length = k := by
    intro j hj
    have hle : j * k + k ≤ m * k := by
      rw [← Nat.succ_mul]
      exact Nat.mul_le_mul_right k hj
    rw [List.length_take, List.length_drop, length_sortedItems, hm,
      Nat.mul_comm k m]
    omega
  have hdiv : seqlens.length / k = m := by
    rw [hm, Nat.mul_div_cancel_left m hk]
  have hok : ∀ j ∈ List.range m, ∃ s, State.ofItems k (run j) = .ok s := by
    intro j hj
    have hrun := hlength j (List.mem_range.mp hj)
    rw [State.ofItems, if_neg (by simp [hrun]), if_neg (by omega)]
    exact ⟨_, rfl⟩
  obtain ⟨states, hstates⟩ := exists_mapM_eq_ok_iff.mpr hok
  have hforall := mapM_eq_ok_iff.mp hstates
  refine ⟨states, ?_, ?_, ?_, ?_⟩
  · rw [firstStates, if_pos rfl, if_neg hk.ne', if_neg (by simp [hm]), hdiv]
    exact hstates
  · rintro rfl
    have hzero := hforall.length_eq
    rw [List.length_range, List.length_nil] at hzero
    rw [hm, hzero] at hn
    exact absurd hn (Nat.lt_irrefl 0)
  · intro s hs
    obtain ⟨j, hj, hjs⟩ := exists_of_forall₂_right hforall hs
    refine inv_ofItems_run hjs (hlength j (List.mem_range.mp hj)) ?_
    have hrange : ∀ v ∈ (run j).map Prod.snd, lo ≤ v ∧ v ≤ hi := by
      intro v hv
      obtain ⟨item, hitem, rfl⟩ := List.mem_map.mp hv
      have hmem := mem_sortedItems.mp (List.mem_of_mem_drop (List.mem_of_mem_take hitem))
      exact hvalues _ (List.mem_of_getElem? hmem)
    intro u hu v hv
    have := hrange u hu
    have := hrange v hv
    omega
  · rw [sum_items_of_forall₂ hforall, DataProto.flatMap_runs, List.take_of_length_le]
    rw [length_sortedItems, hm, Nat.mul_comm]

/-- The states that are pushed when the parts can have any size. -/
theorem firstStates_any {hi : ℤ} (hk : 0 < k) (hn : 0 < seqlens.length)
    (hvalues : ∀ v ∈ seqlens, 0 ≤ v ∧ v ≤ hi) :
    ∃ states, firstStates seqlens k false = .ok states ∧ states ≠ [] ∧
      (∀ s ∈ states, s.Inv k hi false) ∧
      (states.map State.items).sum = ↑(sortedItems seqlens) := by
  have hok : ∀ item ∈ sortedItems seqlens,
      ∃ s, State.ofItems k [item] = .ok s := by
    intro item _
    rw [State.ofItems, if_neg (by simp), if_neg (by simpa using hk.ne')]
    exact ⟨_, rfl⟩
  obtain ⟨states, hstates⟩ := exists_mapM_eq_ok_iff.mpr hok
  have hforall := mapM_eq_ok_iff.mp hstates
  refine ⟨states, hstates, ?_, ?_, ?_⟩
  · rintro rfl
    have hzero := hforall.length_eq
    rw [length_sortedItems, List.length_nil] at hzero
    exact absurd hzero hn.ne'
  · intro s hs
    obtain ⟨item, hitem, hs⟩ := exists_of_forall₂_right hforall hs
    have hmem := hvalues _ (List.mem_of_getElem? (mem_sortedItems.mp hitem))
    exact inv_ofItems_singleton hs hmem.1 hmem.2
  · rw [sum_items_of_forall₂ (f := fun item => [item]) hforall,
      List.flatMap_singleton']

/-- What the last state makes of the items. -/
theorem balanced_of_inv {d : ℤ} {equalSize : Bool} {s : State}
    (hs : s.Inv k d equalSize) (hitems : s.items = ↑(sortedItems seqlens)) :
    s.getPartitions.length = k ∧
      s.getPartitions.flatten.Perm (List.range seqlens.length) ∧
      ∀ p ∈ s.getPartitions, ∀ q ∈ s.getPartitions,
        load seqlens p ≤ load seqlens q + d := by
  have hperm : (s.sets.flatMap (·.items)).Perm (sortedItems seqlens) :=
    Multiset.coe_eq_coe.mp hitems
  have hload : ∀ set ∈ s.sets, load seqlens (set.items.map Prod.fst) = set.sum := by
    intro set hset
    rw [load, List.map_map, set.sum_eq]
    congr 1
    apply List.map_congr_left
    intro item hitem
    have hmem : item ∈ sortedItems seqlens :=
      hperm.mem_iff.mp (List.mem_flatMap.mpr ⟨set, hset, hitem⟩)
    show (seqlens[item.1]?).getD 0 = item.2
    rw [mem_sortedItems.mp hmem, Option.getD_some]
  refine ⟨by rw [State.getPartitions, List.length_map, hs.length], ?_, ?_⟩
  · have hflatten : s.getPartitions.flatten =
        (s.sets.flatMap (·.items)).map Prod.fst := by
      rw [State.getPartitions, List.map_flatMap, List.flatMap_def]
    rw [hflatten]
    exact (hperm.map Prod.fst).trans (sortedItems_fst_perm seqlens)
  · intro p hp q hq
    obtain ⟨set, hset, rfl⟩ := List.mem_map.mp hp
    obtain ⟨set', hset', rfl⟩ := List.mem_map.mp hq
    rw [hload set hset, hload set' hset']
    exact hs.spread _ (List.mem_map_of_mem hset) _ (List.mem_map_of_mem hset')

/-- Thin parts of which one is empty hold less than one item each. -/
theorem length_flatten_lt {α : Type*} {parts : List (List α)}
    (hthin : ∀ part ∈ parts, part.length ≤ 1) (hempty : [] ∈ parts) :
    parts.flatten.length < parts.length := by
  induction parts with
  | nil => cases hempty
  | cons part parts ih =>
      have hhead := hthin part List.mem_cons_self
      have htail : parts.flatten.length ≤ parts.length := by
        rw [List.length_flatten]
        have := List.sum_le_card_nsmul (parts.map List.length) 1
          (by simpa using fun p hp => hthin p (List.mem_cons_of_mem _ hp))
        simpa using this
      rw [List.flatten_cons, List.length_append, List.length_cons]
      rcases List.mem_cons.mp hempty with rfl | hempty
      · rw [List.length_nil]
        omega
      · have := ih (fun p hp => hthin p (List.mem_cons_of_mem _ hp)) hempty
        omega

/-- Parts that cover the positions pass the check; sorting keeps the rest. -/
theorem checkAndSortPartitions_ok {d : ℤ} {parts : List (List ℕ)}
    (hcount : parts.length = k)
    (hcover : parts.flatten.Perm (List.range seqlens.length))
    (hnonempty : ∀ part ∈ parts, part ≠ [])
    (hclose : ∀ p ∈ parts, ∀ q ∈ parts,
      load seqlens p ≤ load seqlens q + d) :
    checkAndSortPartitions seqlens.length k parts =
        .ok (parts.map (·.insertionSort (· ≤ ·))) ∧
      Balanced seqlens k d (parts.map (·.insertionSort (· ≤ ·))) := by
  have hsort : ∀ part : List ℕ, (part.insertionSort (· ≤ ·)).Perm part :=
    fun part => List.perm_insertionSort _ _
  have hload : ∀ part, load seqlens (part.insertionSort (· ≤ ·)) =
      load seqlens part := fun part => ((hsort part).map _).sum_eq
  have hempty : parts.any (·.isEmpty) = false := by
    rw [List.any_eq_false]
    intro part hpart
    simpa using hnonempty part hpart
  have hseen : (parts.flatten.any (seqlens.length ≤ ·) ||
      (List.range seqlens.length).any (· ∉ parts.flatten)) = false := by
    rw [Bool.or_eq_false_iff, List.any_eq_false, List.any_eq_false]
    constructor
    · intro i hi
      have := List.mem_range.mp (hcover.mem_iff.mp hi)
      simpa using this
    · intro i hi
      simpa using hcover.mem_iff.mpr hi
  refine ⟨?_, ?_⟩
  · rw [checkAndSortPartitions, if_neg (by simp [hcount]), hempty, hseen]
    rfl
  · refine ⟨by rw [List.length_map, hcount], ?_, ?_, ?_, ?_⟩
    · refine List.Perm.trans ?_ hcover
      clear * - hsort
      induction parts with
      | nil => exact .refl _
      | cons part parts ih =>
          rw [List.map_cons, List.flatten_cons, List.flatten_cons]
          exact (hsort part).append ih
    · intro part hpart
      obtain ⟨part', hpart', rfl⟩ := List.mem_map.mp hpart
      intro hnil
      have hperm := hsort part'
      rw [hnil] at hperm
      exact hnonempty part' hpart' hperm.nil_eq.symm
    · intro part hpart
      obtain ⟨part', -, rfl⟩ := List.mem_map.mp hpart
      exact List.pairwise_insertionSort _ _
    · intro p hp q hq
      obtain ⟨p', hp', rfl⟩ := List.mem_map.mp hp
      obtain ⟨q', hq', rfl⟩ := List.mem_map.mp hq
      rw [hload, hload]
      exact hclose p' hp' q' hq'

/-- The loop ends in a state that holds all items. -/
theorem exists_drain {d : ℤ} {equalSize : Bool} {states : List State}
    (hne : states ≠ []) (hinv : ∀ s ∈ states, s.Inv k d equalSize)
    (hsum : (states.map State.items).sum = ↑(sortedItems seqlens)) :
    ∃ last, drain State.lt State.merge states.length states = some last ∧
      last.Inv k d equalSize ∧ last.items = ↑(sortedItems seqlens) := by
  obtain ⟨last, hlast, hP, hf⟩ := drain_spec (P := fun s => s.Inv k d equalSize)
    (f := State.items)
    (fun s t hs ht => ⟨inv_merge hs ht, items_merge hs.length ht.length⟩) hne
    (Nat.le_succ _) hinv
  exact ⟨last, hlast, hP, hf.trans hsum⟩

/-- **Parts of one size.** If `k` divides the number of sequences, every
assertion holds: the parts cover the positions once, they have one size, and
their loads are at most as far apart as the lengths of two sequences. -/
theorem balanced_equal {lo hi : ℤ} (hk : 0 < k) (hn : 0 < seqlens.length)
    (hdvd : k ∣ seqlens.length) (hvalues : ∀ v ∈ seqlens, lo ≤ v ∧ v ≤ hi) :
    ∃ parts, getSeqlenBalancedPartitions seqlens k true = .ok parts ∧
      Balanced seqlens k (hi - lo) parts ∧
      ∀ part ∈ parts, part.length * k = seqlens.length := by
  obtain ⟨states, hstates, hne, hinv, hsum⟩ :=
    firstStates_equal hk hn hdvd hvalues
  obtain ⟨last, hlast, hlastInv, hitems⟩ := exists_drain hne hinv hsum
  obtain ⟨hcount, hcover, hclose⟩ := balanced_of_inv hlastInv hitems
  obtain ⟨size, hsize⟩ := hlastInv.shape
  have hlength : ∀ part ∈ last.getPartitions, part.length = size := by
    intro part hpart
    obtain ⟨set, hset, rfl⟩ := List.mem_map.mp hpart
    rw [List.length_map, hsize set hset]
  have htotal : size * k = seqlens.length := by
    have := DataProto.length_flatten_of_forall_eq hlength
    rw [hcover.length_eq, List.length_range, hcount] at this
    rw [this, Nat.mul_comm]
  have hnonempty : ∀ part ∈ last.getPartitions, part ≠ [] := by
    rintro part hpart rfl
    have hzero := hlength [] hpart
    rw [List.length_nil] at hzero
    rw [← htotal, ← hzero, Nat.zero_mul] at hn
    exact Nat.lt_irrefl 0 hn
  obtain ⟨hcheck, hbalanced⟩ :=
    checkAndSortPartitions_ok hcount hcover hnonempty hclose
  have hany : last.getPartitions.any (·.length * k != seqlens.length) = false := by
    rw [List.any_eq_false]
    intro part hpart
    simp [hlength part hpart, htotal]
  have hle : ¬seqlens.length < k := Nat.not_lt.mpr (Nat.le_of_dvd hn hdvd)
  refine ⟨_, ?_, hbalanced, ?_⟩
  · rw [getSeqlenBalancedPartitions, if_neg hle, karmarkarKarp, hstates]
    show (match drain State.lt State.merge states.length states with
      | none => _
      | some finalState => _) >>= _ = _
    rw [hlast]
    dsimp only
    rw [hany]
    exact hcheck
  · intro part hpart
    obtain ⟨part', hpart', rfl⟩ := List.mem_map.mp hpart
    rw [(List.perm_insertionSort _ part').length_eq, hlength part' hpart', htotal]

/-- **Parts of any size.** With no negative length and at least `k` sequences,
no part is empty, and the loads are at most one sequence apart. -/
theorem balanced_any {hi : ℤ} (hk : 0 < k) (hn : k ≤ seqlens.length)
    (hvalues : ∀ v ∈ seqlens, 0 ≤ v ∧ v ≤ hi) :
    ∃ parts, getSeqlenBalancedPartitions seqlens k false = .ok parts ∧
      Balanced seqlens k hi parts := by
  obtain ⟨states, hstates, hne, hinv, hsum⟩ :=
    firstStates_any hk (hk.trans_le hn) hvalues
  obtain ⟨last, hlast, hlastInv, hitems⟩ := exists_drain hne hinv hsum
  obtain ⟨hcount, hcover, hclose⟩ := balanced_of_inv hlastInv hitems
  have hnonempty : ∀ part ∈ last.getPartitions, part ≠ [] := by
    rintro part hpart rfl
    obtain ⟨set, hset, hempty⟩ := List.mem_map.mp hpart
    rw [List.map_eq_nil_iff] at hempty
    -- every other set has at most one item, so there are less than `k` items
    have hthin := hlastInv.shape.2.resolve_left fun h => h set hset hempty
    have hlt : last.getPartitions.flatten.length < last.getPartitions.length := by
      refine length_flatten_lt ?_ hpart
      intro part hpart
      obtain ⟨set, hset, rfl⟩ := List.mem_map.mp hpart
      simpa using hthin set hset
    rw [hcover.length_eq, List.length_range, hcount] at hlt
    omega
  obtain ⟨hcheck, hbalanced⟩ :=
    checkAndSortPartitions_ok hcount hcover hnonempty hclose
  refine ⟨_, ?_, hbalanced⟩
  rw [getSeqlenBalancedPartitions, if_neg (Nat.not_lt.mpr hn), karmarkarKarp,
    hstates]
  show (match drain State.lt State.merge states.length states with
    | none => _
    | some finalState => _) >>= _ = _
  rw [hlast]
  exact hcheck

example :
    ∃ parts, getSeqlenBalancedPartitions [30, 0, 20] 2 false = .ok parts ∧
      Balanced [30, 0, 20] 2 30 parts :=
  balanced_any (by decide) (by decide) (by decide)

end Partitions

end TTSR.Trainer
