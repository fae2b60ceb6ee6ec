import Mathlib.Data.List.Sort
import Mathlib.Data.List.Nodup

/-!
# Tickets

A dispenser hands out items with growing tickets. Whoever gets back exactly the
items it was handed out, in whatever order, restores their order by sorting on
the tickets.

- `map_sort_tickets`: sorting what came back.
- `filter_key_eq`: an item is found alone under its key.
- `filter_notMem_append_perm`: what is taken out of a queue, and what stays.
-/

namespace TTSR.Foundation

variable {α β κ : Type*}

/-- Items with one ticket are one item. -/
theorem eq_of_ticket_eq {ticket : β → ℕ} {issued : List β}
    (hissued : issued.Pairwise (ticket · < ticket ·)) {x y : β}
    (hx : x ∈ issued) (hy : y ∈ issued) (h : ticket x = ticket y) : x = y := by
  have hnd : (issued.map ticket).Nodup := by
    rw [List.Nodup, List.pairwise_map]
    exact hissued.imp Nat.ne_of_lt
  exact List.inj_on_of_nodup_map hnd hx hy h

/-- Sorting on the tickets restores the order of issue. -/
theorem map_sort_tickets {ticket : β → ℕ} {item : α → β} {collected : List α}
    {issued : List β} (hissued : issued.Pairwise (ticket · < ticket ·))
    (hperm : (collected.map item).Perm issued) :
    (collected.insertionSort fun x y => ticket (item x) ≤ ticket (item y)).map
      item = issued := by
  let r : α → α → Prop := fun x y => ticket (item x) ≤ ticket (item y)
  have hsort : ((collected.insertionSort r).map item).Perm issued :=
    ((List.perm_insertionSort r collected).map item).trans hperm
  have hsorted : ((collected.insertionSort r).map item).Pairwise
      (ticket · ≤ ticket ·) := by
    rw [List.pairwise_map]
    exact List.pairwise_insertionSort r collected
  have hissued' : issued.Pairwise (ticket · ≤ ticket ·) :=
    hissued.imp Nat.le_of_lt
  refine List.Perm.eq_of_pairwise ?_ hsorted hissued' hsort
  intro x y hx hy hxy hyx
  exact eq_of_ticket_eq hissued (hsort.subset hx) hy (Nat.le_antisymm hxy hyx)

/-- In a list without two elements of one key, an element is found alone under
its key. -/
theorem filter_key_eq {f : α → κ} [DecidableEq κ] {xs : List α} {x : α}
    (hnd : (xs.map f).Nodup) (hx : x ∈ xs) :
    xs.filter (fun y => f y = f x) = [x] := by
  induction xs with
  | nil => cases hx
  | cons y ys ih =>
      rw [List.map_cons, List.nodup_cons] at hnd
      rcases List.mem_cons.mp hx with rfl | hx
      · have hnone : ys.filter (fun y => f y = f x) = [] := by
          rw [List.filter_eq_nil_iff]
          intro z hz heq
          exact hnd.1 (List.mem_map.mpr ⟨z, hz, of_decide_eq_true heq⟩)
        simp [hnone]
      · have hne : f y ≠ f x := by
          intro heq
          exact hnd.1 (List.mem_map.mpr ⟨x, hx, heq.symm⟩)
        simp [hne, ih hnd.2 hx]

/-- Taking some elements out of a list without repetitions. -/
theorem filter_notMem_append_perm [DecidableEq α] {xs ys : List α}
    (hxs : xs.Nodup) (hys : ys.Nodup) (hsub : ∀ y ∈ ys, y ∈ xs) :
    (xs.filter (· ∉ ys) ++ ys).Perm xs := by
  rw [List.perm_ext_iff_of_nodup ?_ hxs]
  · intro x
    rw [List.mem_append, List.mem_filter, decide_eq_true_eq]
    constructor
    · rintro (⟨hx, -⟩ | hx)
      · exact hx
      · exact hsub x hx
    · intro hx
      by_cases hmem : x ∈ ys
      · exact .inr hmem
      · exact .inl ⟨hx, hmem⟩
  · rw [List.nodup_append]
    refine ⟨hxs.filter _, hys, ?_⟩
    rintro x hx y hy rfl
    exact of_decide_eq_true (List.mem_filter.mp hx).2 hy

end TTSR.Foundation
