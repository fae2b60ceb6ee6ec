import TTSR.Foundation.MatchingBlocks
import TTSR.Memory.Representation

/-!
# Two weaknesses of one round

`update` compares a reflection with the entries before it, so of two weaknesses
the later one is compared with the earlier one. Whether they are merged depends
on who was seen first exactly if `_similarity` reaches the threshold in one
direction only. That can happen, because a sequence matcher takes the earliest
of several longest blocks; without such ties it cannot (`merge_order_iff`).
-/

namespace TTSR.Memory

open TTSR.Foundation TTSR.Foundation.Text TTSR.Foundation.Merging
  TTSR.Foundation.MatchingBlocks

/-- `_similarity`. -/
def similarity (a b : String) : ℚ := ratio (split a) (split b)

/-- The persistences in a memory that was empty before the update. -/
def persistences (py : Builtins) (reflections : List (List (String × Json)))
    (t : ℤ) : Except ErrorKind (List ℤ) :=
  (update py defaultConfig similarity [] reflections t).map
    fun entries => entries.map (·.persistence)

/-- `b` is merged into `a`, at the default threshold. -/
def Merges (a b : String) : Prop := 3 / 5 ≤ similarity b a

instance (a b : String) : Decidable (Merges a b) :=
  inferInstanceAs (Decidable (3 / 5 ≤ similarity b a))

/-- What is left of the weaknesses `a` and then `b`. -/
def pairPersistences (a b : String) : List ℤ :=
  if a = "" ∧ b = "" then []
  else if a = "" ∨ b = "" then [1]
  else if Merges a b then [2]
  else [1, 1]

section Pair

variable {py : Builtins} {ra rb : List (String × Json)} {t : ℤ}

theorem prune_of_current {entries : List WeaknessEntry}
    (hnow : ∀ e ∈ entries, e.lastSeen = t) (hlen : entries.length ≤ 10)
    (hranked : entries.Pairwise fun a b => b.persistence ≤ a.persistence) :
    prune defaultConfig t entries = entries := by
  have hfilter : (entries.filter fun x =>
      t - x.lastSeen ≤ defaultConfig.resolveWindow) = entries := by
    refine List.filter_eq_self.mpr fun e he => ?_
    rw [hnow e he, sub_self]
    rfl
  rw [prune, hfilter, rank, hranked.insertionSort_eq, sliceTo,
    if_pos (by decide)]
  exact List.take_of_length_le hlen

/-- The memory after the loop, for two fresh candidates. -/
theorem foldl_mergeInto_pair {ca cb : WeaknessEntry}
    (ha : ca.lastSeen = t ∧ ca.persistence = 1)
    (hb : cb.lastSeen = t ∧ cb.persistence = 1) :
    let merged := ([ca, cb].filter (·.reasoningWeakness ≠ "")).foldl
      (mergeInto defaultConfig similarity t) []
    (∀ e ∈ merged, e.lastSeen = t) ∧ merged.map (·.persistence) =
      pairPersistences ca.reasoningWeakness cb.reasoningWeakness := by
  unfold pairPersistences
  by_cases hca : ca.reasoningWeakness = "" <;>
    by_cases hcb : cb.reasoningWeakness = ""
  · simp [hca, hcb]
  · simp [hca, hcb, mergeInto, absorb, hb]
  · simp [hca, hcb, mergeInto, absorb, ha]
  · by_cases hmerge : Merges ca.reasoningWeakness cb.reasoningWeakness
    · have hreach : reaches defaultConfig similarity cb.reasoningWeakness
          ca.reasoningWeakness = true := decide_eq_true hmerge
      simp [hca, hcb, mergeInto, absorb, hmerge, hreach, WeaknessEntry.seen, ha]
    · have hreach : reaches defaultConfig similarity cb.reasoningWeakness
          ca.reasoningWeakness = false := decide_eq_false hmerge
      simp [hca, hcb, mergeInto, absorb, hmerge, hreach, ha, hb]

theorem candidates_pair {ca cb : WeaknessEntry}
    (ha : fromReflection py ra t = .ok ca)
    (hb : fromReflection py rb t = .ok cb) :
    candidates py t [ra, rb] = [ca, cb].filter (·.reasoningWeakness ≠ "") := by
  rw [candidates_cons ha, candidates_cons hb]
  by_cases hca : ca.reasoningWeakness = "" <;>
    by_cases hcb : cb.reasoningWeakness = "" <;>
      simp [candidates, hca, hcb]

theorem persistences_pair (ha : WellShaped ra) (hb : WellShaped rb) :
    persistences py [ra, rb] t = .ok (pairPersistences
      (textField py ra "reasoning_weakness")
      (textField py rb "reasoning_weakness")) := by
  obtain ⟨ca, hca⟩ := (fromReflection_ok_iff py ra t).mpr ha
  obtain ⟨cb, hcb⟩ := (fromReflection_ok_iff py rb t).mpr hb
  obtain ⟨-, -, hafresh⟩ := fromReflection_fresh hca
  obtain ⟨-, -, hbfresh⟩ := fromReflection_fresh hcb
  obtain ⟨hnow, hmap⟩ := foldl_mergeInto_pair hafresh hbfresh
  have hshape : ∀ item ∈ [ra, rb], WellShaped item := by simp [ha, hb]
  rw [← reasoningWeakness_of_fromReflection hca,
    ← reasoningWeakness_of_fromReflection hcb, ← hmap, persistences,
    update_eq_ok hshape, candidates_pair hca hcb]
  have hpairs : ∀ a b, (pairPersistences a b).length ≤ 10 ∧
      (pairPersistences a b).Pairwise fun m n => n ≤ m := by
    intro a b
    unfold pairPersistences
    split_ifs <;> simp
  obtain ⟨hlen, hranked⟩ := hpairs ca.reasoningWeakness cb.reasoningWeakness
  rw [← hmap, List.length_map] at hlen
  rw [← hmap, List.pairwise_map] at hranked
  rw [prune_of_current hnow hlen hranked]
  rfl

end Pair

/-! ## Both orders -/

theorem pairPersistences_comm_iff (a b : String) :
    pairPersistences a b = pairPersistences b a ↔
      a = "" ∨ b = "" ∨ (Merges a b ↔ Merges b a) := by
  unfold pairPersistences
  by_cases ha : a = "" <;> by_cases hb : b = "" <;> simp only [ha, hb]
  · simp
  · simp
  · simp
  · by_cases hab : Merges a b <;> by_cases hba : Merges b a <;> simp [hab, hba]

theorem merges_comm_of_noTie {a b : String} (h : NoTie (split a) (split b)) :
    Merges a b ↔ Merges b a := by
  unfold Merges similarity
  rw [ratio_comm h]

/-- **Two weaknesses in either order** leave the same persistences exactly if
they are merged in both orders or in neither (or one of them is blank); and so
they do if the search for matching blocks of their words meets no tie. -/
theorem merge_order_iff (py : Builtins) {ra rb : List (String × Json)}
    (ha : WellShaped ra) (hb : WellShaped rb) (t : ℤ) :
    let a := textField py ra "reasoning_weakness"
    let b := textField py rb "reasoning_weakness"
    (persistences py [ra, rb] t = persistences py [rb, ra] t ↔
      a = "" ∨ b = "" ∨ (Merges a b ↔ Merges b a)) ∧
    (NoTie (split a) (split b) →
      persistences py [ra, rb] t = persistences py [rb, ra] t) := by
  intro a b
  have hiff : persistences py [ra, rb] t = persistences py [rb, ra] t ↔
      a = "" ∨ b = "" ∨ (Merges a b ↔ Merges b a) := by
    rw [persistences_pair ha hb, persistences_pair hb ha, Except.ok.injEq]
    exact pairPersistences_comm_iff a b
  exact ⟨hiff, fun h => hiff.mpr (.inr (.inr (merges_comm_of_noTie h)))⟩

theorem wellShaped_exampleReflection (weakness : String) :
    WellShaped (exampleReflection weakness) := by
  simp [exampleReflection, WellShaped, Dict.lookupEntries, Iterable]

/-- Two words in common, and only one longest block of them. -/
theorem merge_order_exampleReflection :
    persistences Builtins.plain
        [exampleReflection "drops a sign", exampleReflection "drops a root"] 1 =
      persistences Builtins.plain
        [exampleReflection "drops a root", exampleReflection "drops a sign"] 1 := by
  refine ((merge_order_iff Builtins.plain
    (wellShaped_exampleReflection "drops a sign")
    (wellShaped_exampleReflection "drops a root") 1).2 ?_)
  have hsign : split (textField Builtins.plain (exampleReflection "drops a sign")
      "reasoning_weakness") = ["drops", "a", "sign"] := by decide +kernel
  have hroot : split (textField Builtins.plain (exampleReflection "drops a root")
      "reasoning_weakness") = ["drops", "a", "root"] := by decide +kernel
  have hunique : UniqueMatch ["drops", "a", "sign"] ["drops", "a", "root"]
      (0, 0) := by decide +kernel
  rw [hsign, hroot]
  refine .split hunique (noTie_of_disjoint ?_) (noTie_of_disjoint ?_)
  · simp
  · decide +kernel

/-- Both words of the first weakness are in the second, in the other order and
in this one: which block is taken first decides whether the other is found. -/
theorem merge_order_matters :
    persistences Builtins.plain [exampleReflection "bounds signs",
        exampleReflection "signs bounds or signs"] 1 = .ok [1, 1] ∧
      persistences Builtins.plain [exampleReflection "signs bounds or signs",
        exampleReflection "bounds signs"] 1 = .ok [2] := by
  have hshape := wellShaped_exampleReflection
  rw [persistences_pair (hshape _) (hshape _),
    persistences_pair (hshape _) (hshape _)]
  exact ⟨congrArg _ (by decide +kernel), congrArg _ (by decide +kernel)⟩

end TTSR.Memory
