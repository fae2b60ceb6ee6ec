import Mathlib.Algebra.BigOperators.Group.List.Basic
import Mathlib.Algebra.Order.Field.Rat
import Mathlib.Tactic.FieldSimp
import Mathlib.Tactic.Linarith
import TTSR.Foundation.Plurality
import TTSR.Reward.FinalAnswer
import TTSR.Reward.RewardResult

/-!
# The majority vote, written twice

`finalizeGroup` is the vote of the training reward: the second half of
`TTSRMajorityRewardManager._finalize_group`, from the popped items to the
results of their futures. `evaluateOutput` is the vote of the evaluator: the
body of the loop of `StudentEvaluator.evaluate`. `SameVote` says in what sense
they are one vote, over every list of responses and in every order.
-/

namespace TTSR.Reward

open TTSR.Foundation TTSR.Foundation.Text

/-! ## The training reward -/

/-- `TTSRMajorityRewardManager.__init__`. -/
structure MajorityConfig where
  groupWaitMs : ℤ
  resultTimeoutS : ℚ
  defaultEmptyReward : ℚ
  expectedGroupSize : ℕ
  expectedGroupSize_pos : 0 < expectedGroupSize

/-- The options of `reward_kwargs`, absent ones `none`. -/
structure MajorityKwargs where
  groupWaitMs : Option ℤ
  resultTimeoutS : Option ℚ
  defaultEmptyReward : Option ℚ
  expectedGroupSize : Option ℤ

def MajorityConfig.ofKwargs (kw : MajorityKwargs) : MajorityConfig where
  groupWaitMs := kw.groupWaitMs.getD 80
  resultTimeoutS := kw.resultTimeoutS.getD 5
  defaultEmptyReward := kw.defaultEmptyReward.getD 0
  expectedGroupSize := (max 1 (kw.expectedGroupSize.getD 1)).toNat
  expectedGroupSize_pos := by omega

/-- `_PendingItem`. -/
structure PendingItem where
  extractedAnswer : String
  future : ℕ
deriving DecidableEq

/-- `[a.strip() for a in answers if a.strip()]`. -/
def nonBlank (answers : List String) : List String :=
  (answers.map strip).filter (· ≠ "")

/-- `pseudo_target` and `majority_count`, the count looked up in the counter. -/
def vote (items : List PendingItem) : String × ℕ :=
  let answers := nonBlank (items.map (·.extractedAnswer))
  match plurality answers with
  | some (target, _) => (target, (tally answers).getD target 0)
  | none => ("", 0)

def isMatch (pseudoTarget : String) (item : PendingItem) : Bool :=
  pseudoTarget ≠ "" && strip item.extractedAnswer == pseudoTarget

def itemReward (cfg : MajorityConfig) (pseudoTarget : String)
    (item : PendingItem) : ℚ :=
  if isMatch pseudoTarget item then 1 else cfg.defaultEmptyReward

/-- The result dictionary of one item of a finalised group. -/
def itemResult (cfg : MajorityConfig) (groupUid : String)
    (items : List PendingItem) (item : PendingItem) : RewardResult :=
  let (pseudoTarget, majorityCount) := vote items
  let reward := itemReward cfg pseudoTarget item
  { rewardScore := .fin reward
    rewardExtraInfo :=
      [("group_uid", .str groupUid),
       ("pseudo_target", .str pseudoTarget),
       ("extracted_answer", .str item.extractedAnswer),
       ("group_size", .int items.length),
       ("majority_count", .int majorityCount),
       ("acc", .float (.fin reward)),
       ("timeout", .bool false)] }

/-- The results of a popped group, each with the future it is for. -/
def finalizeGroup (cfg : MajorityConfig) (groupUid : String)
    (items : List PendingItem) : List (ℕ × RewardResult) :=
  items.map fun item => (item.future, itemResult cfg groupUid items item)

/-! ## The evaluator -/

/-- One element of the list `StudentEvaluator.evaluate` returns. -/
structure Evaluation where
  question : String
  rolloutN : ℕ
  traces : List String
  answers : List String
  pseudoTarget : String
  rewards : List ℕ
  pseudoCorrectness : ℚ
  frontierReward : ℚ
  majorityCount : ℕ
deriving DecidableEq

/-- One round of the loop of `evaluate`: the vote over the traces sampled for
one question. -/
def evaluateOutput (question : String) (traces : List String) : Evaluation :=
  let answers := traces.map extractFinalAnswer
  let (pseudoTarget, majorityCount) := (plurality (nonBlank answers)).getD ("", 0)
  let rewards : List ℕ := answers.map fun answer =>
    if pseudoTarget ≠ "" && strip answer == pseudoTarget then 1 else 0
  let score : ℚ :=
    if rewards = [] then 0 else (rewards.sum : ℕ) / (rewards.length : ℕ)
  { question, rolloutN := traces.length, traces, answers, pseudoTarget, rewards
    pseudoCorrectness := score
    frontierReward := 4 * score * (1 - score)
    majorityCount }

/-! ## One vote -/

theorem ne_empty_of_mem_nonBlank {answers : List String} {a : String}
    (h : a ∈ nonBlank answers) : a ≠ "" := by
  simpa using (List.mem_filter.mp h).2

theorem nonBlank_eq_nil_iff {answers : List String} :
    nonBlank answers = [] ↔ ∀ a ∈ answers, strip a = "" := by
  simp [nonBlank, List.filter_eq_nil_iff]

theorem nonBlank_perm {xs ys : List String} (h : xs.Perm ys) :
    (nonBlank xs).Perm (nonBlank ys) := (h.map strip).filter _

/-- Both votes are the plurality of the nonblank answers. -/
theorem vote_eq (items : List PendingItem) :
    vote items =
      (plurality (nonBlank (items.map (·.extractedAnswer)))).getD ("", 0) := by
  unfold vote
  dsimp only
  cases h : plurality (nonBlank (items.map (·.extractedAnswer))) with
  | none => rfl
  | some p =>
      obtain ⟨w, n⟩ := p
      obtain ⟨hw, hn⟩ := isPlurality_of_plurality h
      have hget : (tally (nonBlank (items.map (·.extractedAnswer)))).get? w =
          some n := Dict.get?_eq_some_iff _ |>.mpr (mem_tally.mpr ⟨hw.1, hn⟩)
      simp [Dict.getD, hget]

theorem vote_perm {xs ys : List PendingItem} (h : xs.Perm ys) :
    vote xs = vote ys := by
  rw [vote_eq, vote_eq, plurality_perm (nonBlank_perm (h.map _))]

/-- The winner of a vote is blank exactly when there is nothing to vote for. -/
theorem winner_eq_empty_iff {answers : List String} :
    ((plurality (nonBlank answers)).getD ("", 0)).1 = "" ↔
      ∀ a ∈ answers, strip a = "" := by
  rw [← nonBlank_eq_nil_iff, ← plurality_eq_none_iff]
  cases h : plurality (nonBlank answers) with
  | none => simp
  | some p =>
      have hmem := (isPlurality_of_plurality h).1.1
      simpa using ne_empty_of_mem_nonBlank hmem

theorem winner_isPlurality {answers : List String}
    (h : ((plurality (nonBlank answers)).getD ("", 0)).1 ≠ "") :
    IsPlurality (nonBlank answers)
      ((plurality (nonBlank answers)).getD ("", 0)).1 := by
  cases hp : plurality (nonBlank answers) with
  | none => simp [hp] at h
  | some p => exact (isPlurality_of_plurality hp).1

/-- The winner is counted over the nonblank answers only, so the number of
matching responses is its number of votes. -/
theorem sum_matches {t : String} (ht : t ≠ "") (answers : List String) :
    (answers.map fun a => if t ≠ "" && strip a == t then 1 else 0).sum =
      (nonBlank answers).count t := by
  induction answers with
  | nil => rfl
  | cons a as ih =>
      rw [List.map_cons, List.sum_cons, ih]
      by_cases ha : strip a = ""
      · have hne : strip a ≠ t := fun h => ht (h.symm.trans ha)
        simp [nonBlank, ha, Ne.symm ht]
      · by_cases hat : strip a = t
        · simp [nonBlank, ht, hat, Nat.add_comm]
        · simp [nonBlank, ha, hat]

theorem sum_matches_winner (answers : List String) :
    (answers.map fun a =>
      if ((plurality (nonBlank answers)).getD ("", 0)).1 ≠ "" &&
        strip a == ((plurality (nonBlank answers)).getD ("", 0)).1
      then 1 else 0).sum = ((plurality (nonBlank answers)).getD ("", 0)).2 := by
  cases hp : plurality (nonBlank answers) with
  | none => simp
  | some p =>
      obtain ⟨hw, hn⟩ := isPlurality_of_plurality hp
      rw [Option.getD_some, sum_matches (ne_empty_of_mem_nonBlank hw.1), hn]

/-! ## The evaluation of a question -/

section Evaluation

variable (question : String) (traces : List String)

theorem evaluateOutput_winner :
    ((evaluateOutput question traces).pseudoTarget,
      (evaluateOutput question traces).majorityCount) =
    (plurality (nonBlank (traces.map extractFinalAnswer))).getD ("", 0) := rfl

theorem evaluateOutput_rewards :
    (evaluateOutput question traces).rewards = traces.map fun t =>
      if (evaluateOutput question traces).pseudoTarget ≠ "" &&
        strip (extractFinalAnswer t) ==
          (evaluateOutput question traces).pseudoTarget
      then 1 else 0 := by
  simp [evaluateOutput]

theorem evaluateOutput_sum_rewards :
    (evaluateOutput question traces).rewards.sum =
      (evaluateOutput question traces).majorityCount := by
  rw [evaluateOutput_rewards]
  simpa [evaluateOutput, Function.comp_def] using
    sum_matches_winner (traces.map extractFinalAnswer)

theorem evaluateOutput_pseudoCorrectness :
    (evaluateOutput question traces).pseudoCorrectness =
      ((evaluateOutput question traces).majorityCount : ℚ) / traces.length := by
  have hdef : (evaluateOutput question traces).pseudoCorrectness =
      if (evaluateOutput question traces).rewards = [] then (0 : ℚ)
      else ((evaluateOutput question traces).rewards.sum : ℕ) /
        ((evaluateOutput question traces).rewards.length : ℕ) := rfl
  have hlen : (evaluateOutput question traces).rewards.length =
      traces.length := by
    rw [evaluateOutput_rewards, List.length_map]
  rw [hdef, evaluateOutput_sum_rewards, hlen]
  split_ifs with hnil
  · have hzero : traces.length = 0 := by rw [← hlen, hnil, List.length_nil]
    rw [hzero]
    simp
  · rfl

/-- A pseudo-correctness is zero or at least one vote. -/
theorem evaluateOutput_range :
    (evaluateOutput question traces).pseudoCorrectness = 0 ∨
      1 / (traces.length : ℚ) ≤
        (evaluateOutput question traces).pseudoCorrectness := by
  rw [evaluateOutput_pseudoCorrectness]
  rcases Nat.eq_zero_or_pos (evaluateOutput question traces).majorityCount with
    h | h
  · left
    rw [h]
    simp
  · right
    have hone : (1 : ℚ) ≤ (evaluateOutput question traces).majorityCount := by
      exact_mod_cast h
    exact div_le_div_of_nonneg_right hone (Nat.cast_nonneg _)

end Evaluation

/-! ## Agreement -/

/-- The items `run_single` registers for responses, each with its future. -/
def pendingItems (rollouts : List (String × ℕ)) : List PendingItem :=
  rollouts.map fun r => ⟨extractFinalAnswer r.1, r.2⟩

/-- The results of the training reward and the evaluation of the same
responses express one vote. -/
structure SameVote (cfg : MajorityConfig) (rollouts : List (String × ℕ))
    (results : List (ℕ × RewardResult)) (e : Evaluation) : Prop where
  target : ∀ fr ∈ results,
    fr.2.field "pseudo_target" = some (.str e.pseudoTarget) ∧
    fr.2.field "majority_count" = some (.int e.majorityCount)
  matching : (pendingItems rollouts).map (isMatch e.pseudoTarget) =
    e.rewards.map (· == 1)
  rewarded : results.map (·.2.reward) =
    e.rewards.map fun m => if m = 1 then 1 else cfg.defaultEmptyReward
  blank : e.pseudoTarget = "" ↔
    ∀ r ∈ rollouts, strip (extractFinalAnswer r.1) = ""
  plurality : e.pseudoTarget ≠ "" → IsPlurality
    (nonBlank (rollouts.map fun r => extractFinalAnswer r.1)) e.pseudoTarget
  correctness : e.pseudoCorrectness = (e.majorityCount : ℚ) / rollouts.length
  mean : cfg.defaultEmptyReward = 0 →
    (results.map (·.2.reward)).sum / results.length = e.pseudoCorrectness
  range : e.pseudoCorrectness = 0 ∨
    1 / (rollouts.length : ℚ) ≤ e.pseudoCorrectness

theorem vote_pendingItems (question : String) (rollouts : List (String × ℕ)) :
    vote (pendingItems rollouts) =
      ((evaluateOutput question (rollouts.map Prod.fst)).pseudoTarget,
       (evaluateOutput question (rollouts.map Prod.fst)).majorityCount) := by
  rw [vote_eq, evaluateOutput_winner]
  simp [pendingItems, Function.comp_def]

theorem isMatch_pendingItems (question : String)
    (rollouts : List (String × ℕ)) :
    (pendingItems rollouts).map
        (isMatch (evaluateOutput question (rollouts.map Prod.fst)).pseudoTarget) =
      (evaluateOutput question (rollouts.map Prod.fst)).rewards.map (· == 1) := by
  rw [evaluateOutput_rewards]
  simp only [pendingItems, List.map_map]
  apply List.map_congr_left
  intro r _
  simp only [Function.comp_apply, isMatch]
  split_ifs with h
  · simpa using h
  · simpa using h

theorem rewards_finalizeGroup (cfg : MajorityConfig) (groupUid : String)
    (items : List PendingItem) :
    (finalizeGroup cfg groupUid items).map (·.2.reward) =
      items.map (itemReward cfg (vote items).1) := by
  simp [finalizeGroup, itemResult, RewardResult.reward, Function.comp_def]

theorem rewarded_pendingItems (cfg : MajorityConfig)
    (groupUid question : String) (rollouts : List (String × ℕ)) :
    (finalizeGroup cfg groupUid (pendingItems rollouts)).map (·.2.reward) =
      (evaluateOutput question (rollouts.map Prod.fst)).rewards.map
        fun m => if m = 1 then 1 else cfg.defaultEmptyReward := by
  have hmarks := congrArg (List.map fun b : Bool =>
    if b then (1 : ℚ) else cfg.defaultEmptyReward)
    (isMatch_pendingItems question rollouts)
  rw [rewards_finalizeGroup, vote_pendingItems question]
  rw [List.map_map, List.map_map] at hmarks
  exact hmarks.trans (List.map_congr_left fun m _ => by simp)

/-- With the default reward 0 the rewards of a group add up to its matches. -/
theorem sum_rewards (ms : List ℕ) (h : ∀ m ∈ ms, m = 0 ∨ m = 1) :
    (ms.map fun m => if m = 1 then (1 : ℚ) else 0).sum = (ms.sum : ℕ) := by
  induction ms with
  | nil => simp
  | cons m ms ih =>
      rw [List.map_cons, List.sum_cons, List.sum_cons, Nat.cast_add,
        ih fun m' hm' => h m' (List.mem_cons_of_mem _ hm')]
      rcases h m List.mem_cons_self with rfl | rfl <;> simp

theorem sameVote (cfg : MajorityConfig) (groupUid question : String)
    (rollouts : List (String × ℕ)) :
    SameVote cfg rollouts (finalizeGroup cfg groupUid (pendingItems rollouts))
      (evaluateOutput question (rollouts.map Prod.fst)) where
  target := by
    rintro ⟨f, r⟩ hfr
    obtain ⟨item, -, hitem⟩ := List.mem_map.mp hfr
    obtain ⟨-, rfl⟩ := Prod.mk.inj hitem
    rw [itemResult, vote_pendingItems question]
    exact ⟨rfl, rfl⟩
  matching := isMatch_pendingItems question rollouts
  rewarded := rewarded_pendingItems cfg groupUid question rollouts
  blank := by
    have h : (evaluateOutput question (rollouts.map Prod.fst)).pseudoTarget =
        "" ↔ ∀ a ∈ (rollouts.map Prod.fst).map extractFinalAnswer,
          strip a = "" := winner_eq_empty_iff
    simp only [List.forall_mem_map] at h
    exact h
  plurality := by
    intro hne
    rw [← Function.comp_def, ← List.map_map]
    exact winner_isPlurality hne
  correctness := by
    rw [evaluateOutput_pseudoCorrectness, List.length_map]
  mean := by
    intro hzero
    rw [rewarded_pendingItems cfg groupUid question, hzero, sum_rewards,
      evaluateOutput_sum_rewards, evaluateOutput_pseudoCorrectness]
    · simp [finalizeGroup, pendingItems]
    · intro m hm
      rw [evaluateOutput_rewards] at hm
      obtain ⟨t, -, rfl⟩ := List.mem_map.mp hm
      split_ifs <;> simp
  range := by
    have h := evaluateOutput_range question (rollouts.map Prod.fst)
    rwa [List.length_map] at h

/-! ## Independence of the order -/

/-- Reordering the items of a group leaves the result of every future alone. -/
theorem finalizeGroup_perm (cfg : MajorityConfig) (groupUid : String)
    {xs ys : List PendingItem} (h : xs.Perm ys) :
    (finalizeGroup cfg groupUid xs).Perm (finalizeGroup cfg groupUid ys) := by
  have hresult : ∀ item, itemResult cfg groupUid xs item =
      itemResult cfg groupUid ys item := by
    intro item
    rw [itemResult, itemResult, vote_perm h, h.length_eq]
  unfold finalizeGroup
  simp only [hresult]
  exact h.map _

theorem zip_map_self (ts : List String) (g : String → ℕ) :
    ts.zip (ts.map g) = ts.map fun t => (t, g t) := by
  simpa using List.zip_map' (l := ts) (f := id) (g := g)

theorem evaluateOutput_perm (question : String) {xs ys : List String}
    (h : xs.Perm ys) :
    (evaluateOutput question xs).pseudoTarget =
        (evaluateOutput question ys).pseudoTarget ∧
    (evaluateOutput question xs).majorityCount =
        (evaluateOutput question ys).majorityCount ∧
    (evaluateOutput question xs).pseudoCorrectness =
        (evaluateOutput question ys).pseudoCorrectness ∧
    (xs.zip (evaluateOutput question xs).rewards).Perm
        (ys.zip (evaluateOutput question ys).rewards) := by
  have hwin : ((evaluateOutput question xs).pseudoTarget,
      (evaluateOutput question xs).majorityCount) =
      ((evaluateOutput question ys).pseudoTarget,
        (evaluateOutput question ys).majorityCount) := by
    rw [evaluateOutput_winner, evaluateOutput_winner,
      plurality_perm (nonBlank_perm (h.map _))]
  obtain ⟨htarget, hcount⟩ := Prod.mk.inj hwin
  refine ⟨htarget, hcount, ?_, ?_⟩
  · rw [evaluateOutput_pseudoCorrectness, evaluateOutput_pseudoCorrectness,
      hcount, h.length_eq]
  · rw [evaluateOutput_rewards, evaluateOutput_rewards, htarget, zip_map_self,
      zip_map_self]
    exact h.map _

/-- The training reward and the evaluator implement one majority vote, on every
list of responses, and neither depends on their order. -/
theorem votes_agree (cfg : MajorityConfig) (groupUid question : String)
    (rollouts : List (String × ℕ)) :
    SameVote cfg rollouts (finalizeGroup cfg groupUid (pendingItems rollouts))
      (evaluateOutput question (rollouts.map Prod.fst)) ∧
    ∀ rollouts', rollouts'.Perm rollouts →
      let e := evaluateOutput question (rollouts.map Prod.fst)
      let e' := evaluateOutput question (rollouts'.map Prod.fst)
      (finalizeGroup cfg groupUid (pendingItems rollouts')).Perm
        (finalizeGroup cfg groupUid (pendingItems rollouts)) ∧
      e'.pseudoTarget = e.pseudoTarget ∧
      e'.majorityCount = e.majorityCount ∧
      e'.pseudoCorrectness = e.pseudoCorrectness ∧
      ((rollouts'.map Prod.fst).zip e'.rewards).Perm
        ((rollouts.map Prod.fst).zip e.rewards) := by
  refine ⟨sameVote cfg groupUid question rollouts, fun rollouts' hperm => ?_⟩
  exact ⟨finalizeGroup_perm cfg groupUid (hperm.map _),
    evaluateOutput_perm question (hperm.map Prod.fst)⟩

end TTSR.Reward
