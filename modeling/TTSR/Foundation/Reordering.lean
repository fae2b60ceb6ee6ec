import Mathlib.Data.List.Nodup
import Mathlib.Data.List.Range

/-!
# Reordered lists

A list of positions selects elements. If it holds every position once, the
selection is undone by the positions at which the positions are: these are
written into a list, one after the other.

- `getElem?_setAll`: what writing at distinct positions leaves.
- `filterMap_inverse`: selecting twice gives back the list.
-/

namespace TTSR.Foundation

variable {α : Type*}

/-- Write values at positions, in the order of a list. -/
def setAll (xs : List α) (writes : List (ℕ × α)) : List α :=
  writes.foldl (fun xs w => xs.set w.1 w.2) xs

@[simp] theorem length_setAll (xs : List α) (writes : List (ℕ × α)) :
    (setAll xs writes).length = xs.length := by
  induction writes generalizing xs with
  | nil => rfl
  | cons w writes ih =>
      show (setAll (xs.set w.1 w.2) writes).length = _
      rw [ih, List.length_set]

/-- A position that is not written keeps its value. -/
theorem getElem?_setAll_of_notMem {xs : List α} {writes : List (ℕ × α)} {i : ℕ}
    (h : i ∉ writes.map Prod.fst) : (setAll xs writes)[i]? = xs[i]? := by
  induction writes generalizing xs with
  | nil => rfl
  | cons w writes ih =>
      rw [List.map_cons, List.mem_cons, not_or] at h
      show (setAll (xs.set w.1 w.2) writes)[i]? = _
      rw [ih h.2, List.getElem?_set_ne (Ne.symm h.1)]

/-- Of writes at distinct positions none is overwritten. -/
theorem getElem?_setAll {xs : List α} {writes : List (ℕ × α)} {i : ℕ} {v : α}
    (hnd : (writes.map Prod.fst).Nodup) (hmem : (i, v) ∈ writes)
    (hi : i < xs.length) : (setAll xs writes)[i]? = some v := by
  induction writes generalizing xs with
  | nil => cases hmem
  | cons w writes ih =>
      rw [List.map_cons, List.nodup_cons] at hnd
      show (setAll (xs.set w.1 w.2) writes)[i]? = _
      rcases List.mem_cons.mp hmem with rfl | hmem
      · rw [getElem?_setAll_of_notMem hnd.1, List.getElem?_set_self hi]
      · exact ih hnd.2 hmem (by rwa [List.length_set])

theorem mem_setAll {xs : List α} {writes : List (ℕ × α)} {x : α}
    (h : x ∈ setAll xs writes) : x ∈ xs ∨ x ∈ writes.map Prod.snd := by
  induction writes generalizing xs with
  | nil => exact .inl h
  | cons w writes ih =>
      rw [List.map_cons, List.mem_cons]
      rcases ih h with hset | hwrites
      · exact (List.mem_or_eq_of_mem_set hset).imp_right .inl
      · exact .inr (.inr hwrites)

/-- A selection, position by position. -/
theorem getElem?_filterMap_of_lt {data : List α} {idx : List ℕ}
    (h : ∀ i ∈ idx, i < data.length) (j : ℕ) :
    (idx.filterMap (data[·]?))[j]? = (idx[j]?).bind (data[·]?) := by
  induction idx generalizing j with
  | nil => rfl
  | cons i idx ih =>
      rw [List.filterMap_cons_some
        (List.getElem?_eq_getElem (h i List.mem_cons_self))]
      cases j with
      | zero =>
          exact (List.getElem?_eq_getElem (h i List.mem_cons_self)).symm
      | succ j =>
          exact ih (fun i hi => h i (List.mem_cons_of_mem _ hi)) j

theorem filterMap_range_getElem? (data : List α) :
    (List.range data.length).filterMap (data[·]?) = data := by
  apply List.ext_getElem?
  intro j
  rw [getElem?_filterMap_of_lt fun i hi => List.mem_range.mp hi]
  by_cases hj : j < data.length
  · rw [List.getElem?_range hj, Option.bind_some]
  · rw [List.getElem?_eq_none (by simpa using hj), Option.bind_none,
      List.getElem?_eq_none (Nat.le_of_not_lt hj)]

/-- **Undoing a reordering.** -/
theorem filterMap_inverse {data : List α} {idx : List ℕ}
    (hperm : idx.Perm (List.range data.length)) :
    (setAll idx idx.zipIdx).filterMap ((idx.filterMap (data[·]?))[·]?) = data := by
  have hlt : ∀ i ∈ idx, i < data.length := fun i hi =>
    List.mem_range.mp (hperm.subset hi)
  have hlength : idx.length = data.length := by
    rw [hperm.length_eq, List.length_range]
  have hmap : (setAll idx idx.zipIdx).map ((idx.filterMap (data[·]?))[·]?) =
      (List.range data.length).map (data[·]?) := by
    apply List.ext_getElem?
    intro i
    rw [List.getElem?_map, List.getElem?_map]
    by_cases hi : i < data.length
    · -- position `i` stands at some place `j` of the list of positions
      obtain ⟨j, hj, hij⟩ := List.getElem_of_mem
        (hperm.symm.subset (List.mem_range.mpr hi))
      have hwrite : (i, j) ∈ idx.zipIdx := by
        rw [List.mk_mem_zipIdx_iff_getElem?, List.getElem?_eq_getElem hj, hij]
      have hnd : (idx.zipIdx.map Prod.fst).Nodup := by
        rw [List.zipIdx_map_fst]
        exact hperm.symm.nodup List.nodup_range
      rw [getElem?_setAll hnd hwrite (hlength ▸ hi), List.getElem?_range hi,
        Option.map_some, Option.map_some, getElem?_filterMap_of_lt hlt,
        List.getElem?_eq_getElem hj, hij, Option.bind_some]
    · rw [List.getElem?_eq_none (by rw [length_setAll, hlength]; omega),
        List.getElem?_eq_none (by rw [List.length_range]; omega)]
      rfl
  have hid := congrArg (List.filterMap id) hmap
  rw [List.filterMap_map, List.filterMap_map] at hid
  exact hid.trans (filterMap_range_getElem? data)

end TTSR.Foundation
