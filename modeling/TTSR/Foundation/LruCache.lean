import Mathlib.Data.Finset.Card
import TTSR.Foundation.Dict

/-!
# Least recently used entries

A cache is given by its methods (`Cache`). One that discards the least recently
used entries first is described by the order of its entries, the most recent one
in front (`Cache.Lru`): reading an entry moves it to the front, and a new entry
goes there, at the cost of the last one if there is no room.

- `Lru.get?_touch`, `Lru.get?_put`: an entry that is used is found.
- `RecentFor.touch`, `RecentFor.put`: it stays as long as fewer than `maxsize`
  other keys have been used since.
- `Cache.lru_recencyList`: a list in this order is such a cache.
-/

namespace TTSR.Foundation

/-- The methods of a cache. -/
structure Cache (κ ν : Type*) where
  State : Type
  empty : State
  /-- `k in cache`, and the value it has there. -/
  get? : State → κ → Option ν
  /-- What is left of the cache by `cache[k]`. -/
  touch : State → κ → State
  /-- `cache[k] = v`. -/
  put : State → κ → ν → State

namespace Cache

variable {κ ν : Type*} [DecidableEq κ]

/-- The cache has room for `maxsize` entries and discards the least recently
used one first; `order` lists them, the most recently used one in front. -/
structure Lru (C : Cache κ ν) (maxsize : ℕ)
    (order : C.State → List (κ × ν)) : Prop where
  room : 0 < maxsize
  nodup : ∀ c, ((order c).map Prod.fst).Nodup
  get?_eq : ∀ c k, C.get? c k = Dict.lookupEntries k (order c)
  order_empty : order C.empty = []
  order_touch : ∀ c k v, C.get? c k = some v →
    order (C.touch c k) = (k, v) :: (order c).filter (·.1 ≠ k)
  order_put : ∀ c k v, C.get? c k = none →
    order (C.put c k v) = ((k, v) :: order c).take maxsize

section Lru

variable {C : Cache κ ν} {maxsize : ℕ} {order : C.State → List (κ × ν)}
  {c : C.State} {j k : κ} {v w : ν} {D : Finset κ}

theorem Lru.get?_eq_some_iff (h : C.Lru maxsize order) :
    C.get? c k = some v ↔ (k, v) ∈ order c := by
  rw [h.get?_eq]
  exact Dict.lookupEntries_eq_some_iff (h.nodup c)

theorem Lru.get?_eq_none_iff (h : C.Lru maxsize order) :
    C.get? c k = none ↔ k ∉ (order c).map Prod.fst := by
  rw [h.get?_eq]
  exact Dict.lookupEntries_eq_none_iff

theorem Lru.get?_empty (h : C.Lru maxsize order) : C.get? C.empty k = none := by
  rw [h.get?_eq, h.order_empty]
  rfl

/-- Reading an entry changes no value. -/
theorem Lru.get?_touch (h : C.Lru maxsize order) (hk : C.get? c k = some v) :
    C.get? (C.touch c k) j = C.get? c j := by
  rw [h.get?_eq, h.order_touch c k v hk, Dict.lookupEntries, h.get?_eq]
  by_cases hj : k = j
  · subst hj
    rw [if_pos rfl, ← h.get?_eq, hk]
  · rw [if_neg hj, Dict.lookupEntries_filter_ne (Ne.symm hj)]

/-- After a new entry was written nothing else is new. -/
theorem Lru.get?_put (h : C.Lru maxsize order) (hk : C.get? c k = none)
    (hj : C.get? (C.put c k v) j = some w) :
    (j = k ∧ w = v) ∨ C.get? c j = some w := by
  rw [h.get?_eq_some_iff, h.order_put c k v hk] at hj
  rcases List.mem_cons.mp (List.mem_of_mem_take hj) with heq | hold
  · exact .inl (Prod.mk.inj heq)
  · exact .inr (h.get?_eq_some_iff.mpr hold)

/-! ## How long an entry stays -/

/-- Only keys in `D` have been used since the entry of `k`. -/
def RecentFor (entries : List (κ × ν)) (D : Finset κ) (k : κ) (v : ν) : Prop :=
  ∃ newer older, entries = newer ++ (k, v) :: older ∧ ∀ e ∈ newer, e.1 ∈ D

omit [DecidableEq κ] in
theorem RecentFor.mono {entries : List (κ × ν)} {D D' : Finset κ}
    (h : RecentFor entries D k v) (hsub : D ⊆ D') :
    RecentFor entries D' k v := by
  obtain ⟨newer, older, hentries, hnewer⟩ := h
  exact ⟨newer, older, hentries, fun e he => hsub (hnewer e he)⟩

theorem RecentFor.get? (h : C.Lru maxsize order)
    (hrecent : RecentFor (order c) D k v) : C.get? c k = some v := by
  obtain ⟨newer, older, hentries, -⟩ := hrecent
  rw [h.get?_eq_some_iff, hentries]
  exact List.mem_append_right _ List.mem_cons_self

theorem recentFor_touch (h : C.Lru maxsize order) (hk : C.get? c k = some v) :
    RecentFor (order (C.touch c k)) ∅ k v :=
  ⟨[], _, h.order_touch c k v hk, nofun⟩

theorem recentFor_put (h : C.Lru maxsize order) (hk : C.get? c k = none) :
    RecentFor (order (C.put c k v)) ∅ k v := by
  have hroom := h.room
  obtain ⟨room, rfl⟩ : ∃ room, maxsize = room + 1 :=
    ⟨maxsize - 1, by omega⟩
  exact ⟨[], _, h.order_put c k v hk, nofun⟩

/-- An entry stays when another one is read. -/
theorem RecentFor.touch (h : C.Lru maxsize order)
    (hrecent : RecentFor (order c) D k v) (hget : C.get? c j = some w)
    (hjk : j ≠ k) (hj : j ∈ D) : RecentFor (order (C.touch c j)) D k v := by
  obtain ⟨newer, older, hentries, hnewer⟩ := hrecent
  refine ⟨(j, w) :: newer.filter (·.1 ≠ j), older.filter (·.1 ≠ j), ?_, ?_⟩
  · rw [h.order_touch c j w hget, hentries, List.filter_append,
      List.filter_cons_of_pos]
    · rfl
    · exact decide_eq_true (Ne.symm hjk)
  · intro e he
    rcases List.mem_cons.mp he with rfl | he
    · exact hj
    · exact hnewer e (List.mem_filter.mp he).1

/-- **An entry stays** while fewer than `maxsize` other keys are used. -/
theorem RecentFor.put (h : C.Lru maxsize order)
    (hrecent : RecentFor (order c) D k v) (hget : C.get? c j = none)
    (hj : j ∈ D) (hcard : D.card < maxsize) :
    RecentFor (order (C.put c j w)) D k v := by
  obtain ⟨newer, older, hentries, hnewer⟩ := hrecent
  have hnodup := h.nodup c
  have hnotMem := h.get?_eq_none_iff.mp hget
  rw [hentries, List.map_append] at hnodup hnotMem
  -- the entries in front are those of other keys in `D`
  have hlength : newer.length + 1 < maxsize := by
    have hsub : (newer.map Prod.fst).toFinset ⊆ D.erase j := by
      intro i hi
      obtain ⟨e, he, rfl⟩ := List.mem_map.mp (List.mem_toFinset.mp hi)
      refine Finset.mem_erase.mpr ⟨?_, hnewer e he⟩
      rintro rfl
      exact hnotMem (List.mem_append_left _ (List.mem_map_of_mem he))
    have hle := Finset.card_le_card hsub
    rw [List.toFinset_card_of_nodup hnodup.of_append_left, List.length_map,
      Finset.card_erase_of_mem hj] at hle
    have hpos := Finset.card_pos.mpr ⟨j, hj⟩
    omega
  obtain ⟨room, hroom⟩ : ∃ room, maxsize = newer.length + 1 + (room + 1) :=
    ⟨maxsize - newer.length - 2, by omega⟩
  refine ⟨(j, w) :: newer, older.take room, ?_, ?_⟩
  · have hfront : ((j, w) :: newer).length = newer.length + 1 := rfl
    rw [h.order_put c j w hget, hentries, ← List.cons_append, hroom, ← hfront,
      List.take_length_add_append, List.take_succ_cons]
  · intro e he
    rcases List.mem_cons.mp he with rfl | he
    · exact hj
    · exact hnewer e he

end Lru

/-! ## A list as a cache -/

/-- The entries themselves, in this order. -/
def recencyList (κ ν : Type) [DecidableEq κ] (maxsize : ℕ) : Cache κ ν where
  State := { entries : List (κ × ν) // (entries.map Prod.fst).Nodup }
  empty := ⟨[], List.nodup_nil⟩
  get? c k := Dict.lookupEntries k c.1
  touch c k := match Dict.lookupEntries k c.1 with
    | some v => ⟨(k, v) :: c.1.filter (·.1 ≠ k),
        List.nodup_cons.mpr ⟨by simp, c.2.sublist (List.filter_sublist.map _)⟩⟩
    | none => c
  put c k v := ⟨((k, v) :: c.1.filter (·.1 ≠ k)).take maxsize,
    (List.nodup_cons.mpr ⟨by simp, c.2.sublist (List.filter_sublist.map _)⟩ :
      (((k, v) :: c.1.filter (·.1 ≠ k)).map Prod.fst).Nodup).sublist
        ((List.take_sublist _ _).map _)⟩

theorem lru_recencyList (κ ν : Type) [DecidableEq κ] {maxsize : ℕ}
    (hpos : 0 < maxsize) :
    (recencyList κ ν maxsize).Lru maxsize Subtype.val where
  room := hpos
  nodup c := c.2
  get?_eq _ _ := rfl
  order_empty := rfl
  order_touch := by
    intro c k v hk
    have hlookup : Dict.lookupEntries k c.1 = some v := hk
    simp only [recencyList, hlookup]
  order_put := by
    intro c k v hk
    have hnotMem : k ∉ c.1.map Prod.fst := Dict.lookupEntries_eq_none_iff.mp hk
    have hothers : c.1.filter (·.1 ≠ k) = c.1 := by
      rw [List.filter_eq_self]
      intro e he
      apply decide_eq_true
      rintro rfl
      exact hnotMem (List.mem_map_of_mem he)
    show ((k, v) :: c.1.filter (·.1 ≠ k)).take maxsize = _
    rw [hothers]

end Cache

end TTSR.Foundation
