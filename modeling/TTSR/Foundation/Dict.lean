import Mathlib.Algebra.GroupWithZero.Nat
import Mathlib.Data.List.Nodup
import Mathlib.Data.List.Basic
import Mathlib.Tactic.SplitIfs

/-!
# Insertion-ordered maps

A dictionary that remembers the order in which its keys were first inserted.
The representation is an association list, and the field `nodup` makes it
canonical: a key occurs at most once, so a lookup cannot disagree with the
iteration order. Writing to a present key keeps its place; writing to a new key
appends; `pop` removes the one entry of its key.
-/

namespace TTSR.Foundation

/-- A map with one entry for each key, in insertion order. -/
structure Dict (κ ν : Type*) where
  entries : List (κ × ν)
  nodup : (entries.map Prod.fst).Nodup
deriving DecidableEq

namespace Dict

variable {κ ν : Type*}

/-! ## Association lists -/

section Entries

variable [DecidableEq κ]

/-- Replace the entry of `k`, or append one. -/
def setEntries (k : κ) (v : ν) : List (κ × ν) → List (κ × ν)
  | [] => [(k, v)]
  | e :: es => if e.1 = k then (k, v) :: es else e :: setEntries k v es

def lookupEntries (k : κ) : List (κ × ν) → Option ν
  | [] => none
  | e :: es => if e.1 = k then some e.2 else lookupEntries k es

theorem mem_keys_setEntries {k j : κ} {v : ν} {es : List (κ × ν)} :
    j ∈ (setEntries k v es).map Prod.fst ↔ j = k ∨ j ∈ es.map Prod.fst := by
  induction es with
  | nil => simp [setEntries]
  | cons e es ih =>
      by_cases h : e.1 = k
      · simp [setEntries, h]
      · simp only [setEntries, if_neg h, List.map_cons, List.mem_cons, ih]
        tauto

theorem nodup_setEntries {k : κ} {v : ν} : ∀ {es : List (κ × ν)},
    (es.map Prod.fst).Nodup → ((setEntries k v es).map Prod.fst).Nodup
  | [], _ => by simp [setEntries]
  | e :: es, hnd => by
      rw [List.map_cons, List.nodup_cons] at hnd
      by_cases h : e.1 = k
      · rw [setEntries, if_pos h, List.map_cons, List.nodup_cons]
        exact ⟨h ▸ hnd.1, hnd.2⟩
      · rw [setEntries, if_neg h, List.map_cons, List.nodup_cons]
        refine ⟨?_, nodup_setEntries hnd.2⟩
        rw [mem_keys_setEntries]
        rintro (heq | hmem)
        · exact h heq
        · exact hnd.1 hmem

theorem lookupEntries_set_self {k : κ} {v : ν} {es : List (κ × ν)} :
    lookupEntries k (setEntries k v es) = some v := by
  induction es with
  | nil => simp [setEntries, lookupEntries]
  | cons e es ih =>
      by_cases h : e.1 = k
      · simp [setEntries, lookupEntries, h]
      · simp [setEntries, lookupEntries, h, ih]

theorem lookupEntries_set_ne {k j : κ} {v : ν} (hjk : j ≠ k)
    {es : List (κ × ν)} :
    lookupEntries j (setEntries k v es) = lookupEntries j es := by
  induction es with
  | nil => simp [setEntries, lookupEntries, Ne.symm hjk]
  | cons e es ih =>
      by_cases h : e.1 = k
      · simp [setEntries, lookupEntries, h, Ne.symm hjk]
      · rw [setEntries, if_neg h, lookupEntries, lookupEntries, ih]

theorem lookupEntries_eq_none_iff {k : κ} {es : List (κ × ν)} :
    lookupEntries k es = none ↔ k ∉ es.map Prod.fst := by
  induction es with
  | nil => simp [lookupEntries]
  | cons e es ih =>
      by_cases h : e.1 = k
      · simp [lookupEntries, h]
      · simp [lookupEntries, h, Ne.symm h, ih]

theorem lookupEntries_map {ν' : Type*} (f : ν → ν') (k : κ)
    (es : List (κ × ν)) :
    lookupEntries k (es.map fun e => (e.1, f e.2)) =
      (lookupEntries k es).map f := by
  induction es with
  | nil => rfl
  | cons e es ih =>
      rw [List.map_cons, lookupEntries, lookupEntries, ih]
      split_ifs <;> rfl

theorem lookupEntries_filter_self {k : κ} (es : List (κ × ν)) :
    lookupEntries k (es.filter (·.1 ≠ k)) = none := by
  rw [lookupEntries_eq_none_iff]
  simp

theorem lookupEntries_filter_ne {k j : κ} (hjk : j ≠ k)
    {es : List (κ × ν)} :
    lookupEntries j (es.filter (·.1 ≠ k)) = lookupEntries j es := by
  induction es with
  | nil => rfl
  | cons e es ih =>
      by_cases h : e.1 = k
      · rw [List.filter_cons_of_neg (by simpa using h), ih, lookupEntries,
          if_neg (fun he => hjk (he.symm.trans h))]
      · rw [List.filter_cons_of_pos (by simpa using h), lookupEntries,
          lookupEntries, ih]

theorem mem_of_lookupEntries {k : κ} {v : ν} : ∀ {es : List (κ × ν)},
    lookupEntries k es = some v → (k, v) ∈ es
  | [], h => by cases h
  | e :: es, h => by
      rw [lookupEntries] at h
      split_ifs at h with hk
      · rw [← hk, ← Option.some.inj h]
        exact List.mem_cons_self
      · exact List.mem_cons_of_mem _ (mem_of_lookupEntries h)

/-- With one entry for each key, a lookup finds exactly the members. -/
theorem lookupEntries_eq_some_iff {k : κ} {v : ν} : ∀ {es : List (κ × ν)},
    (es.map Prod.fst).Nodup → (lookupEntries k es = some v ↔ (k, v) ∈ es)
  | [], _ => by simp [lookupEntries]
  | e :: es, hnd => by
      rw [List.map_cons, List.nodup_cons] at hnd
      obtain ⟨i, w⟩ := e
      by_cases h : i = k
      · subst h
        have hnot : (i, v) ∉ es := fun hm =>
          hnd.1 (List.mem_map.mpr ⟨(i, v), hm, rfl⟩)
        simp [lookupEntries, hnot, eq_comm]
      · simp [lookupEntries, h, Ne.symm h, lookupEntries_eq_some_iff hnd.2]

end Entries

/-! ## The map operations -/

def empty : Dict κ ν := ⟨[], List.nodup_nil⟩

def keys (d : Dict κ ν) : List κ := d.entries.map Prod.fst

theorem entries_ne_nil {d : Dict κ ν} {k : κ} (h : k ∈ d.keys) :
    d.entries ≠ [] := by
  obtain ⟨e, he, -⟩ := List.mem_map.mp h
  exact List.ne_nil_of_mem he

variable [DecidableEq κ]

def get? (d : Dict κ ν) (k : κ) : Option ν := lookupEntries k d.entries

def getD (d : Dict κ ν) (k : κ) (dflt : ν) : ν := (d.get? k).getD dflt

def set (d : Dict κ ν) (k : κ) (v : ν) : Dict κ ν :=
  ⟨setEntries k v d.entries, nodup_setEntries d.nodup⟩

/-- Remove the entry of `k`, if there is one. -/
def pop (d : Dict κ ν) (k : κ) : Dict κ ν :=
  ⟨d.entries.filter (·.1 ≠ k), d.nodup.sublist (List.filter_sublist.map _)⟩

@[simp] theorem get?_empty (k : κ) : (empty : Dict κ ν).get? k = none := rfl

@[simp] theorem get?_set_self (d : Dict κ ν) (k : κ) (v : ν) :
    (d.set k v).get? k = some v := lookupEntries_set_self

@[simp] theorem get?_set_ne (d : Dict κ ν) {k j : κ} (v : ν) (h : j ≠ k) :
    (d.set k v).get? j = d.get? j := lookupEntries_set_ne h

@[simp] theorem get?_pop_self (d : Dict κ ν) (k : κ) :
    (d.pop k).get? k = none := lookupEntries_filter_self d.entries

@[simp] theorem get?_pop_ne (d : Dict κ ν) {k j : κ} (h : j ≠ k) :
    (d.pop k).get? j = d.get? j := lookupEntries_filter_ne h

theorem get?_eq_some_iff (d : Dict κ ν) {k : κ} {v : ν} :
    d.get? k = some v ↔ (k, v) ∈ d.entries :=
  lookupEntries_eq_some_iff d.nodup

@[simp] theorem getD_empty (k : κ) (dflt : ν) :
    (empty : Dict κ ν).getD k dflt = dflt := rfl

@[simp] theorem getD_set_self (d : Dict κ ν) (k : κ) (v dflt : ν) :
    (d.set k v).getD k dflt = v := by simp [getD]

@[simp] theorem getD_set_ne (d : Dict κ ν) {k j : κ} (v dflt : ν)
    (h : j ≠ k) : (d.set k v).getD j dflt = d.getD j dflt := by
  simp [getD, h]

@[simp] theorem getD_pop_self (d : Dict κ ν) (k : κ) (dflt : ν) :
    (d.pop k).getD k dflt = dflt := by simp [getD]

@[simp] theorem getD_pop_ne (d : Dict κ ν) {k j : κ} (dflt : ν)
    (h : j ≠ k) : (d.pop k).getD j dflt = d.getD j dflt := by
  simp [getD, h]

/-- Writes in a row: the last one to a key wins. -/
theorem get?_foldl_set {α : Type*} (key : α → κ) (val : α → ν) (xs : List α)
    (d : Dict κ ν) (k : κ) :
    (xs.foldl (fun d x => d.set (key x) (val x)) d).get? k =
      (((xs.filter (key · = k)).getLast?).map val).or (d.get? k) := by
  induction xs generalizing d with
  | nil => rfl
  | cons x xs ih =>
      rw [List.foldl_cons, ih]
      by_cases hk : key x = k
      · subst hk
        rw [get?_set_self, List.filter_cons_of_pos (by simp),
          List.getLast?_cons]
        cases (xs.filter (key · = key x)).getLast? <;> rfl
      · rw [get?_set_ne _ _ (Ne.symm hk), List.filter_cons_of_neg (by simpa)]

/-! ## Keys and sums -/

theorem mem_keys_set {d : Dict κ ν} {k j : κ} {v : ν} :
    j ∈ (d.set k v).keys ↔ j = k ∨ j ∈ d.keys := mem_keys_setEntries

theorem keys_setEntries {k : κ} {v : ν} : ∀ {es : List (κ × ν)},
    k ∈ es.map Prod.fst → (setEntries k v es).map Prod.fst = es.map Prod.fst
  | [], h => by cases h
  | e :: es, h => by
      by_cases hk : e.1 = k
      · rw [setEntries, if_pos hk, List.map_cons, List.map_cons, hk]
      · rw [List.map_cons, List.mem_cons] at h
        rw [setEntries, if_neg hk, List.map_cons, List.map_cons,
          keys_setEntries (h.resolve_left (Ne.symm hk))]

/-- Writing to a present key keeps the order of the keys. -/
theorem keys_set {d : Dict κ ν} {k : κ} {v : ν} (h : k ∈ d.keys) :
    (d.set k v).keys = d.keys := keys_setEntries h

theorem getD_of_mem {d : Dict κ ν} {k : κ} {v : ν} (h : (k, v) ∈ d.entries)
    (dflt : ν) : d.getD k dflt = v := by
  rw [getD, d.get?_eq_some_iff.mpr h, Option.getD_some]

theorem mem_entries_of_mem_keys {d : Dict κ ν} {k : κ} (h : k ∈ d.keys)
    (dflt : ν) : (k, d.getD k dflt) ∈ d.entries := by
  obtain ⟨⟨j, v⟩, he, rfl⟩ := List.mem_map.mp h
  rwa [getD_of_mem he]

theorem entries_eq (d : Dict κ ν) (dflt : ν) :
    d.entries = d.keys.map fun k => (k, d.getD k dflt) := by
  rw [keys, List.map_map]
  refine ((List.map_congr_left fun e he => ?_).trans (List.map_id _)).symm
  exact Prod.ext rfl (getD_of_mem he dflt)

/-- A map is its keys, in their order, and their values. -/
theorem ext_getD {d d' : Dict κ ν} (dflt : ν) (hkeys : d.keys = d'.keys)
    (h : ∀ k, d.getD k dflt = d'.getD k dflt) : d = d' := by
  have hentries : d.entries = d'.entries := by
    rw [d.entries_eq dflt, d'.entries_eq dflt, hkeys]
    exact List.map_congr_left fun k _ => Prod.ext rfl (h k)
  cases d
  cases d'
  cases hentries
  rfl

/-- The sum of the values of a map. -/
def sum (d : Dict κ ℕ) : ℕ := (d.entries.map Prod.snd).sum

theorem sum_setEntries {k : κ} {v w : ℕ} : ∀ {es : List (κ × ℕ)},
    lookupEntries k es = some w →
      ((setEntries k v es).map Prod.snd).sum + w = (es.map Prod.snd).sum + v
  | [], h => by cases h
  | e :: es, h => by
      rw [lookupEntries] at h
      by_cases hk : e.1 = k
      · rw [if_pos hk, Option.some_inj] at h
        rw [setEntries, if_pos hk, List.map_cons, List.map_cons, List.sum_cons,
          List.sum_cons]
        omega
      · rw [if_neg hk] at h
        have ih := sum_setEntries (v := v) h
        rw [setEntries, if_neg hk, List.map_cons, List.map_cons, List.sum_cons,
          List.sum_cons]
        omega

theorem sum_set {d : Dict κ ℕ} {k : κ} (v : ℕ) (h : k ∈ d.keys) :
    (d.set k v).sum + d.getD k 0 = d.sum + v :=
  sum_setEntries (d.get?_eq_some_iff.mpr (mem_entries_of_mem_keys h 0))

/-- A map all of whose keys have been popped is the empty map. -/
theorem entries_eq_nil_of_get? (d : Dict κ ν)
    (h : ∀ k, d.get? k = none) : d.entries = [] := by
  rw [List.eq_nil_iff_forall_not_mem]
  rintro ⟨k, v⟩ hmem
  have hsome := d.get?_eq_some_iff.mpr hmem
  rw [h k] at hsome
  cases hsome

end Dict

end TTSR.Foundation
