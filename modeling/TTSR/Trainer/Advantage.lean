import Mathlib.Analysis.Real.Sqrt
import TTSR.Foundation.Grouping
import TTSR.Reward.MajorityVote
import TTSR.Trainer.BalanceBatch

/-!
# The advantage of a rollout

The reward of a rollout is written to its last token, summed up again and
compared with the rewards of its group: the rollouts that carry the same `uid`.
Arithmetic is exact, over an ordered field with an uninterpreted square root.

- Balancing reorders the batch before the advantages are computed. They do not
  change (`advantages_reordered`).
- With the rewards of a majority vote an advantage is positive exactly for a
  rollout that joined the majority while another one did not
  (`majority_advantages`).
-/

namespace TTSR.Trainer

open TTSR.Foundation TTSR.Foundation.Grouping TTSR.Reward

section Definitions

variable {K : Type} [Field K]

/-- `rm_scores` of `_postprocess`: the score at the last token that is attended
to; the position counts from the end if there is none. -/
def rmScores (responseAttention : List ℕ) (score : K) : List K :=
  let zeros := List.replicate responseAttention.length (0 : K)
  let responseLength : ℤ := responseAttention.sum - 1
  let position :=
    if 0 ≤ responseLength then responseLength
    else responseAttention.length + responseLength
  zeros.set position.toNat score

/-- What the estimator reads of a row. -/
structure OutcomeRow (υ K : Type) where
  uid : υ
  tokenLevelRewards : List K
  responseMask : List K

variable {υ : Type} [DecidableEq υ]

/-- `id2mean` at one key. -/
def groupMean (scores : List K) : K :=
  if scores.length = 1 then 0 else mean scores

/-- `id2std` at one key. -/
def groupStd (sqrt : K → K) (scores : List K) : K :=
  if scores.length = 1 then 1 else sqrt (variance scores)

/-- The new value of `scores[i]`. -/
def normalisedScore (sqrt : K → K) (epsilon : K) (normAdvByStd : Bool)
    (group : List K) (score : K) : K :=
  if normAdvByStd then
    (score - groupMean group) / (groupStd sqrt group + epsilon)
  else score - groupMean group

/-- `compute_grpo_outcome_advantage`: the advantages of the tokens of each row. -/
def computeGrpoOutcomeAdvantage (sqrt : K → K) (epsilon : K)
    (normAdvByStd : Bool) (rows : List (OutcomeRow υ K)) : List (List K) :=
  let id2score := groupBy (rows.map fun row =>
    (row.uid, row.tokenLevelRewards.sum))
  rows.map fun row =>
    row.responseMask.map fun m =>
      normalisedScore sqrt epsilon normAdvByStd (id2score.getD row.uid [])
        row.tokenLevelRewards.sum * m

/-- The rewards of one group. -/
def groupScores (rows : List (OutcomeRow υ K)) (uid : υ) : List K :=
  valuesOf uid (rows.map fun row => (row.uid, row.tokenLevelRewards.sum))

end Definitions

/-! ## One score for each response -/

section Scores

variable {K : Type} [Field K]

theorem sum_set_replicate (score : K) {n i : ℕ} (h : i < n) :
    ((List.replicate n (0 : K)).set i score).sum = score := by
  induction n generalizing i with
  | zero => exact absurd h (Nat.not_lt_zero _)
  | succ n ih =>
      rw [List.replicate_succ]
      cases i with
      | zero => simp
      | succ i =>
          rw [List.set_cons_succ, List.sum_cons, zero_add,
            ih (Nat.lt_of_succ_lt_succ h)]

/-- The tokens of a response carry its score once, also if it is empty. -/
theorem sum_rmScores {responseAttention : List ℕ} (hne : responseAttention ≠ [])
    (hmask : ∀ a ∈ responseAttention, a ≤ 1) (score : K) :
    (rmScores responseAttention score).sum = score := by
  have hpos := List.length_pos_iff.mpr hne
  have hsum := List.sum_le_card_nsmul responseAttention 1 hmask
  rw [nsmul_eq_mul, mul_one, Nat.cast_id] at hsum
  apply sum_set_replicate
  split_ifs <;> omega

end Scores

/-! ## Groups, whatever the order -/

section Groups

variable {K : Type} [Field K] {υ : Type} [DecidableEq υ] (sqrt : K → K)
  (epsilon : K) (normAdvByStd : Bool)

/-- The advantages of one row, given the batch. -/
def rowAdvantages (rows : List (OutcomeRow υ K)) (row : OutcomeRow υ K) :
    List K :=
  row.responseMask.map fun m =>
    normalisedScore sqrt epsilon normAdvByStd (groupScores rows row.uid)
      row.tokenLevelRewards.sum * m

theorem computeGrpoOutcomeAdvantage_eq (rows : List (OutcomeRow υ K)) :
    computeGrpoOutcomeAdvantage sqrt epsilon normAdvByStd rows =
      rows.map (rowAdvantages sqrt epsilon normAdvByStd rows) := by
  apply List.map_congr_left
  intro row _
  rw [getD_groupBy]
  rfl

theorem normalisedScore_perm {group group' : List K} (h : group.Perm group')
    (score : K) :
    normalisedScore sqrt epsilon normAdvByStd group score =
      normalisedScore sqrt epsilon normAdvByStd group' score := by
  have hmean : groupMean group = groupMean group' := by
    rw [groupMean, groupMean, h.length_eq, mean_perm h]
  have hstd : groupStd sqrt group = groupStd sqrt group' := by
    rw [groupStd, groupStd, h.length_eq, variance_perm h]
  rw [normalisedScore, normalisedScore, hmean, hstd]

theorem groupScores_perm {rows rows' : List (OutcomeRow υ K)}
    (h : rows.Perm rows') (uid : υ) :
    (groupScores rows uid).Perm (groupScores rows' uid) :=
  valuesOf_perm (h.map _)

theorem rowAdvantages_perm {rows rows' : List (OutcomeRow υ K)}
    (h : rows.Perm rows') (row : OutcomeRow υ K) :
    rowAdvantages sqrt epsilon normAdvByStd rows row =
      rowAdvantages sqrt epsilon normAdvByStd rows' row := by
  apply List.map_congr_left
  intro m _
  rw [normalisedScore_perm sqrt epsilon normAdvByStd (groupScores_perm h row.uid)]

/-- **Balancing leaves the advantages alone.** Computing them on the balanced
batch gives every row what it would have got before. This is so in exact
arithmetic; the sums of the scores are taken in another order. -/
theorem advantages_reordered {ρ : Type} (attentionMask : ρ → List ℕ)
    (outcome : ρ → OutcomeRow υ K) {batch : List ρ} {dpSize : ℕ}
    (hk : 0 < dpSize) (hne : batch ≠ []) (hdvd : dpSize ∣ batch.length) :
    ∃ rows globalIdx, balanceBatch attentionMask dpSize batch =
        .ok (rows, globalIdx) ∧
      DataProto.reorder (computeGrpoOutcomeAdvantage sqrt epsilon normAdvByStd
          (batch.map outcome)) globalIdx =
        .ok (computeGrpoOutcomeAdvantage sqrt epsilon normAdvByStd
          (rows.map outcome)) := by
  obtain ⟨globalIdx, hbalance, hperm⟩ := balanceBatch_spec hk hne hdvd
  refine ⟨_, _, hbalance, ?_⟩
  have hlt : ∀ i ∈ globalIdx, i < batch.length := fun i hi =>
    List.mem_range.mp (hperm.mem_iff.mp hi)
  have hrows : (globalIdx.filterMap (batch[·]?)).Perm batch := by
    have := hperm.filterMap (batch[·]?)
    rwa [filterMap_range_getElem?] at this
  rw [computeGrpoOutcomeAdvantage_eq, computeGrpoOutcomeAdvantage_eq,
    reorder_of_lt (by simpa using hlt), List.map_map, List.map_map,
    List.map_filterMap]
  refine congrArg Except.ok (List.filterMap_congr fun i hi => ?_)
  rw [List.getElem?_map]
  refine congrArg (Option.map · _) (funext fun row => ?_)
  exact (rowAdvantages_perm sqrt epsilon normAdvByStd (hrows.map outcome) _).symm

def exampleOutcome (n : ℕ) : OutcomeRow ℕ ℚ := ⟨n % 2, [0, n], [1, 1]⟩

theorem advantages_reordered_fourRows :
    ∃ rows globalIdx, balanceBatch (fun n => List.replicate n 1) 2 [3, 1, 2, 2] =
        .ok (rows, globalIdx) ∧
      DataProto.reorder (computeGrpoOutcomeAdvantage id 1 false
          ([3, 1, 2, 2].map exampleOutcome)) globalIdx =
        .ok (computeGrpoOutcomeAdvantage id 1 false (rows.map exampleOutcome)) :=
  advantages_reordered id 1 false _ exampleOutcome (by decide) (by decide)
    (by decide)

end Groups

/-! ## The sign of an advantage -/

section Signs

variable {K : Type} [Field K] [LinearOrder K] [IsStrictOrderedRing K]
  {sqrt : K → K} {epsilon : K} (normAdvByStd : Bool) {group : List K}

/-- Dividing by a positive number keeps the sign of the deviation. -/
theorem exists_normalisedScore (hsqrt : ∀ x, 0 ≤ sqrt x) (hepsilon : 0 < epsilon)
    (hsize : group.length ≠ 1) :
    ∃ c > 0, ∀ score, normalisedScore sqrt epsilon normAdvByStd group score =
      (score - mean group) * c := by
  have hpos : 0 < groupStd sqrt group + epsilon := by
    rw [groupStd, if_neg hsize]
    exact add_pos_of_nonneg_of_pos (hsqrt _) hepsilon
  cases normAdvByStd with
  | true =>
      refine ⟨(groupStd sqrt group + epsilon)⁻¹, inv_pos.mpr hpos, fun score => ?_⟩
      rw [normalisedScore, if_pos rfl, groupMean, if_neg hsize, div_eq_mul_inv]
  | false =>
      refine ⟨1, one_pos, fun score => ?_⟩
      rw [normalisedScore, if_neg Bool.false_ne_true, groupMean, if_neg hsize,
        mul_one]

/-- Two levels of reward: above the mean are the high ones, if there is a low
one. -/
theorem mean_lt_iff {low high : K} (hlt : low < high)
    (hlevels : ∀ x ∈ group, x = low ∨ x = high) {x : K} (hx : x ∈ group) :
    (mean group < x ↔ x = high ∧ low ∈ group) ∧
      (x < mean group ↔ x = low ∧ high ∈ group) := by
  have hne := List.ne_nil_of_mem hx
  have hle : ∀ y ∈ group, y ≤ high := by
    intro y hy
    rcases hlevels y hy with rfl | rfl
    · exact hlt.le
    · exact le_rfl
  have hge : ∀ y ∈ group, low ≤ y := by
    intro y hy
    rcases hlevels y hy with rfl | rfl
    · exact le_rfl
    · exact hlt.le
  by_cases hlow : low ∈ group
  · by_cases hhigh : high ∈ group
    · have hbelow := mean_lt hle hlow hlt
      have habove := lt_mean hge hhigh hlt
      rcases hlevels x hx with rfl | rfl
      · simp [hhigh, habove, habove.le, hlt.ne]
      · simp [hlow, hbelow, hbelow.le, hlt.ne']
    · have hconst : ∀ y ∈ group, y = low := fun y hy =>
        (hlevels y hy).resolve_right fun h => hhigh (h ▸ hy)
      rw [mean_eq_of_forall hne hconst, hconst x hx]
      simp [hhigh, hlt.ne]
  · have hconst : ∀ y ∈ group, y = high := fun y hy =>
      (hlevels y hy).resolve_left fun h => hlow (h ▸ hy)
    rw [mean_eq_of_forall hne hconst, hconst x hx]
    simp [hlow, hlt.ne']

end Signs

/-! ## Majority rewards -/

section Majority

/-- A rollout as the trainer sees it. -/
structure Rollout (K : Type) where
  item : PendingItem
  responseAttention : List ℕ
  responseMask : List K
  nonempty : responseAttention ≠ []
  attended : ∀ a ∈ responseAttention, a ≤ 1

variable {K : Type}

/-- The vote of a group goes to the answer of this rollout. -/
def Joins (group : List (Rollout K)) (r : Rollout K) : Prop :=
  isMatch (vote (group.map (·.item))).1 r.item = true

theorem itemReward_of_joins (cfg : MajorityConfig) (group : List (Rollout K))
    (r : Rollout K) :
    (Joins group r → itemReward cfg (vote (group.map (·.item))).1 r.item = 1) ∧
      (¬Joins group r → itemReward cfg (vote (group.map (·.item))).1 r.item =
        cfg.defaultEmptyReward) := by
  rw [itemReward, Joins]
  exact ⟨fun h => if_pos h, fun h => if_neg h⟩

variable [Field K]

/-- The row of a rollout, with the reward of its result. -/
def Rollout.row (uid : String) (r : Rollout K) (result : ℕ × RewardResult) :
    OutcomeRow String K where
  uid := uid
  tokenLevelRewards := rmScores r.responseAttention (result.2.reward : K)
  responseMask := r.responseMask

/-- The rows of a group that was finalised as a whole. -/
def groupRows (cfg : MajorityConfig) (group : String × List (Rollout K)) :
    List (OutcomeRow String K) :=
  List.zipWith (Rollout.row group.1) group.2
    (finalizeGroup cfg group.1 (group.2.map (·.item)))

theorem groupRows_eq (cfg : MajorityConfig) (uid : String)
    (group : List (Rollout K)) :
    groupRows cfg (uid, group) = group.map fun r =>
      r.row uid (r.item.future,
        itemResult cfg uid (group.map (·.item)) r.item) := by
  rw [groupRows, finalizeGroup, List.map_map, List.zipWith_map_right,
    List.zipWith_self]
  rfl

theorem mem_groupRows (cfg : MajorityConfig) {uid : String}
    {group : List (Rollout K)} {r : Rollout K} (hr : r ∈ group) :
    r.row uid (r.item.future, itemResult cfg uid (group.map (·.item)) r.item) ∈
      groupRows cfg (uid, group) := by
  rw [groupRows_eq]
  exact List.mem_map_of_mem hr

theorem groupScores_append (rows rows' : List (OutcomeRow String K))
    (uid : String) :
    groupScores (rows ++ rows') uid =
      groupScores rows uid ++ groupScores rows' uid := by
  rw [groupScores, valuesOf, List.map_append, List.filter_append,
    List.map_append]
  rfl

theorem groupScores_groupRows_self (cfg : MajorityConfig) (uid : String)
    (group : List (Rollout K)) :
    groupScores (groupRows cfg (uid, group)) uid = group.map fun r =>
      (itemReward cfg (vote (group.map (·.item))).1 r.item : K) := by
  rw [groupScores, valuesOf, groupRows_eq, List.map_map,
    List.filter_eq_self.mpr, List.map_map]
  · apply List.map_congr_left
    intro r _
    exact sum_rmScores r.nonempty r.attended _
  · intro p hp
    obtain ⟨r, -, rfl⟩ := List.mem_map.mp hp
    exact decide_eq_true rfl

theorem groupScores_groupRows_ne (cfg : MajorityConfig) {uid uid' : String}
    (hne : uid' ≠ uid) (group : List (Rollout K)) :
    groupScores (groupRows cfg (uid', group)) uid = [] := by
  rw [groupScores, valuesOf, groupRows_eq, List.map_map, List.map_eq_nil_iff,
    List.filter_eq_nil_iff]
  intro p hp
  obtain ⟨r, -, rfl⟩ := List.mem_map.mp hp
  rw [decide_eq_true_eq]
  exact hne

/-- A group gets its own rewards, whatever stands around it. -/
theorem groupScores_groups (cfg : MajorityConfig) {uid : String}
    {group : List (Rollout K)} :
    ∀ {groups : List (String × List (Rollout K))},
      (groups.map Prod.fst).Nodup → (uid, group) ∈ groups →
        groupScores (groups.flatMap (groupRows cfg)) uid =
          groupScores (groupRows cfg (uid, group)) uid
  | [], _, h => by cases h
  | (uid', group') :: groups, hnodup, h => by
      rw [List.map_cons, List.nodup_cons] at hnodup
      rw [List.flatMap_cons, groupScores_append]
      rcases List.mem_cons.mp h with heq | h
      · obtain ⟨rfl, rfl⟩ := Prod.mk.inj heq
        have hothers : groupScores (groups.flatMap (groupRows cfg)) uid = [] := by
          have hkeys := hnodup.1
          clear hnodup h heq
          induction groups with
          | nil => rfl
          | cons other groups ih =>
              rw [List.map_cons, List.mem_cons, not_or] at hkeys
              rw [List.flatMap_cons, groupScores_append, ih hkeys.2,
                List.append_nil]
              exact groupScores_groupRows_ne cfg (Ne.symm hkeys.1) other.2
        rw [hothers, List.append_nil]
      · have hne : uid' ≠ uid := fun heq =>
          hnodup.1 (List.mem_map.mpr ⟨_, h, heq.symm⟩)
        rw [groupScores_groupRows_ne cfg hne, groupScores_groups cfg hnodup.2 h]
        rfl

variable [LinearOrder K] [IsStrictOrderedRing K]

omit [IsStrictOrderedRing K] in
/-- The two rewards of a group tell who joined the majority. -/
theorem joins_iff_reward {cfg : MajorityConfig}
    (hlow : (cfg.defaultEmptyReward : K) < 1) (group : List (Rollout K))
    (r : Rollout K) :
    (Joins group r ↔
      (itemReward cfg (vote (group.map (·.item))).1 r.item : K) = 1) ∧
    (¬Joins group r ↔
      (itemReward cfg (vote (group.map (·.item))).1 r.item : K) =
        (cfg.defaultEmptyReward : K)) := by
  obtain ⟨hjoins, hstays⟩ := itemReward_of_joins cfg group r
  by_cases h : Joins group r
  · rw [hjoins h, Rat.cast_one]
    exact ⟨iff_of_true h rfl, iff_of_false (not_not.mpr h) hlow.ne'⟩
  · rw [hstays h]
    exact ⟨iff_of_false h hlow.ne, iff_of_true h rfl⟩

/-- **Only a split vote teaches.** In a step whose groups were finalised as
wholes, in any order of the rows, the tokens of a rollout in a group of two or
more get a positive advantage if and only if it joined the majority and another
one did not, and a negative one if and only if it did not join and another one
did. A group of one is not normalised. -/
theorem majority_advantages {sqrt : K → K} {epsilon : K} (normAdvByStd : Bool)
    (hsqrt : ∀ x, 0 ≤ sqrt x) (hepsilon : 0 < epsilon) {cfg : MajorityConfig}
    (hdefault : cfg.defaultEmptyReward < 1)
    {groups : List (String × List (Rollout K))}
    (hnodup : (groups.map Prod.fst).Nodup) {rows : List (OutcomeRow String K)}
    (hrows : rows.Perm (groups.flatMap (groupRows cfg))) {uid : String}
    {group : List (Rollout K)} (hgroup : (uid, group) ∈ groups)
    (hsize : 2 ≤ group.length) {r : Rollout K} (hr : r ∈ group) :
    ∃ row ∈ rows, row = r.row uid
        (r.item.future, itemResult cfg uid (group.map (·.item)) r.item) ∧
      ∃ a : K, rowAdvantages sqrt epsilon normAdvByStd rows row =
          r.responseMask.map (a * ·) ∧
        (0 < a ↔ Joins group r ∧ ∃ r' ∈ group, ¬Joins group r') ∧
        (a < 0 ↔ ¬Joins group r ∧ ∃ r' ∈ group, Joins group r') := by
  let reward := fun r : Rollout K =>
    (itemReward cfg (vote (group.map (·.item))).1 r.item : K)
  let low : K := (cfg.defaultEmptyReward : K)
  have hlow : low < 1 := by
    show (cfg.defaultEmptyReward : K) < 1
    exact_mod_cast hdefault
  have hjoins : ∀ r, Joins group r ↔ reward r = 1 := fun r =>
    (joins_iff_reward hlow group r).1
  have hstays : ∀ r, ¬Joins group r ↔ reward r = low := fun r =>
    (joins_iff_reward hlow group r).2
  -- the rewards of the group are all that the advantage of its rows depends on
  have hscores : (groupScores rows uid).Perm (group.map reward) := by
    have hperm := groupScores_perm hrows uid
    rwa [groupScores_groups cfg hnodup hgroup, groupScores_groupRows_self] at hperm
  have hlength : (groupScores rows uid).length ≠ 1 := by
    rw [hscores.length_eq, List.length_map]
    omega
  obtain ⟨c, hc, hscore⟩ :=
    exists_normalisedScore normAdvByStd hsqrt hepsilon hlength
  have hmean : mean (groupScores rows uid) = mean (group.map reward) :=
    mean_perm hscores
  have hlevels : ∀ x ∈ group.map reward, x = low ∨ x = 1 := by
    intro x hx
    obtain ⟨r', -, rfl⟩ := List.mem_map.mp hx
    by_cases h : Joins group r'
    · exact Or.inr ((hjoins r').mp h)
    · exact Or.inl ((hstays r').mp h)
  obtain ⟨habove, hbelow⟩ :=
    mean_lt_iff hlow hlevels (List.mem_map_of_mem hr)
  have hrow : r.row uid (r.item.future,
      itemResult cfg uid (group.map (·.item)) r.item) ∈ rows :=
    hrows.mem_iff.mpr (List.mem_flatMap.mpr ⟨_, hgroup, mem_groupRows cfg hr⟩)
  refine ⟨_, hrow, rfl, (reward r - mean (group.map reward)) * c, ?_, ?_, ?_⟩
  · apply List.map_congr_left
    intro m _
    have hsum := sum_rmScores r.nonempty r.attended (reward r)
    show normalisedScore sqrt epsilon normAdvByStd (groupScores rows uid)
      (rmScores r.responseAttention (reward r)).sum * m = _
    rw [hsum, hscore, hmean]
  · rw [mul_pos_iff_of_pos_right hc, sub_pos, habove, hjoins]
    simp only [hstays, List.mem_map]
  · rw [← not_le, mul_nonneg_iff_of_pos_right hc, not_le, sub_neg, hbelow,
      hstays]
    simp only [hjoins, List.mem_map]

def exampleRollout (K : Type) [Field K] (answer : String) : Rollout K where
  item := ⟨answer, 0⟩
  responseAttention := [1, 1, 0]
  responseMask := [1, 1, 0]
  nonempty := by decide
  attended := by decide

/-- Two rollouts agree, the third one does not. -/
def exampleGroup (K : Type) [Field K] : List (Rollout K) :=
  ["4", "4", "5"].map (exampleRollout K)

theorem majority_advantages_exampleGroup :
    ∃ row ∈ [("u", exampleGroup ℝ)].flatMap
        (groupRows (.ofKwargs ⟨none, none, none, some 3⟩)),
      row = (exampleRollout ℝ "4").row "u"
        (0, itemResult (.ofKwargs ⟨none, none, none, some 3⟩) "u"
          ((exampleGroup ℝ).map (·.item)) (exampleRollout ℝ "4").item) ∧
      ∃ a : ℝ, rowAdvantages Real.sqrt (1 / 10 ^ 6) true
          ([("u", exampleGroup ℝ)].flatMap
            (groupRows (.ofKwargs ⟨none, none, none, some 3⟩))) row =
          (exampleRollout ℝ "4").responseMask.map (a * ·) ∧
        (0 < a ↔ Joins (exampleGroup ℝ) (exampleRollout ℝ "4") ∧
          ∃ r' ∈ exampleGroup ℝ, ¬Joins (exampleGroup ℝ) r') ∧
        (a < 0 ↔ ¬Joins (exampleGroup ℝ) (exampleRollout ℝ "4") ∧
          ∃ r' ∈ exampleGroup ℝ, Joins (exampleGroup ℝ) r') := by
  have hsize : 2 ≤ (exampleGroup ℝ).length := by
    rw [exampleGroup, List.length_map]
    decide
  have hmem : exampleRollout ℝ "4" ∈ exampleGroup ℝ :=
    List.mem_map_of_mem List.mem_cons_self
  exact majority_advantages true Real.sqrt_nonneg (by norm_num)
    (by rw [MajorityConfig.ofKwargs]; norm_num) (by decide) (.refl _)
    List.mem_cons_self hsize hmem

end Majority

end TTSR.Trainer
