import Mathlib.Algebra.Order.BigOperators.Group.List
import Mathlib.Data.List.Perm.Basic
import Mathlib.Tactic.Linarith
import Mathlib.Tactic.NormNum
import TTSR.Reward.TeacherReward

/-!
# Fairness of the frontier reward

An evaluator whose score is a function of the question text makes the result of
a rollout a function of its own item and of what else is in the group, whatever
the order. The loop picks the other questions by index (`similarities`); what it
collects is the list of penalties against the rest of the group
(`similarities_eq`), and of the rest only the valid items count.
-/

namespace TTSR.Reward

open TTSR.Foundation TTSR.Foundation.Text

/-! ## Extracted items -/

/-- Question and format flag are what `extract_generated_question` returns. -/
def FromExtractor (py : Builtins) (loads : String → Except LoadsError Json)
    (item : TeacherItem) : Prop :=
  ∃ text, extractGeneratedQuestion py loads text =
    .ok (item.generatedQuestion, item.formatOk)

theorem strip_of_lastQuestionTag {text q : String}
    (h : lastQuestionTag text = some q) : strip q = q := by
  obtain ⟨body, -, rfl⟩ := Option.map_eq_some_iff.mp h
  rw [← String.toList_inj, toList_strip, String.toList_ofList, stripChars_idem]

theorem questionFromTags_spec (text : String) :
    strip (questionFromTags text).1 = (questionFromTags text).1 ∧
      ((questionFromTags text).2 = false → (questionFromTags text).1 = "") := by
  rw [questionFromTags]
  cases h : lastQuestionTag text with
  | none => exact ⟨by decide, fun _ => rfl⟩
  | some q =>
      dsimp only
      split
      · exact ⟨strip_of_lastQuestionTag h, fun hfalse => by cases hfalse⟩
      · exact ⟨by decide, fun _ => rfl⟩

/-- What is extracted is stripped, and blank unless the format counts. -/
theorem extractGeneratedQuestion_spec {py : Builtins}
    {loads : String → Except LoadsError Json} {text q : String} {ok : Bool}
    (h : extractGeneratedQuestion py loads text = .ok (q, ok)) :
    strip q = q ∧ (ok = false → q = "") := by
  have htags := questionFromTags_spec (strip text)
  rw [extractGeneratedQuestion] at h
  dsimp only at h
  split at h
  · obtain ⟨rfl, rfl⟩ := Prod.mk.inj (Except.ok.inj h)
    exact ⟨by decide, fun _ => rfl⟩
  · split at h
    · cases h
    · rw [Except.ok.inj h] at htags
      exact htags
    · next fields _ =>
        split at h
        · obtain ⟨rfl, rfl⟩ := Prod.mk.inj (Except.ok.inj h)
          refine ⟨?_, fun hfalse => by cases hfalse⟩
          cases hlast : lastQuestionTag (questionField py fields) with
          | none => exact strip_strip _
          | some q => exact strip_of_lastQuestionTag hlast
        · rw [Except.ok.inj h] at htags
          exact htags

/-- Of an extracted item, a question that is not blank is a valid one. -/
theorem FromExtractor.isValid_iff {py : Builtins}
    {loads : String → Except LoadsError Json} {item : TeacherItem}
    (h : FromExtractor py loads item) :
    item.isValid = true ↔ strip item.generatedQuestion ≠ "" := by
  obtain ⟨text, htext⟩ := h
  obtain ⟨hstrip, hformat⟩ := extractGeneratedQuestion_spec htext
  rw [hstrip, TeacherItem.isValid, Bool.and_eq_true, decide_eq_true_iff]
  constructor
  · exact And.right
  · intro hne
    refine ⟨?_, hne⟩
    by_contra hfalse
    exact hne (hformat (by simpa using hfalse))

/-! ## The penalty against the rest of the group -/

section Penalty

variable (ratio : List String → List String → ℚ) (cfg : TeacherConfig)

/-- The penalty of two questions. -/
def penalty (a b : String) : ℚ :=
  max 0 (tokenSimilarity ratio a b - cfg.ttsrTau)

/-- The penalties of `item` against its reference and the others. -/
def penalties (others : List TeacherItem) (item : TeacherItem) : List ℚ :=
  penalty ratio cfg item.generatedQuestion item.referenceQuestion ::
    (others.filter fun other => strip other.generatedQuestion ≠ "").map
      fun other => penalty ratio cfg item.generatedQuestion
        other.generatedQuestion

end Penalty

/-- Skipping an index before the list skips nothing. -/
theorem filter_zipIdx_of_lt {α β : Type*} (P : α → Bool) (f : α → β) (i : ℕ) :
    ∀ (xs : List α) (k : ℕ), i < k →
      ((xs.zipIdx k).filter fun p => i ≠ p.2 && P p.1).map (f ·.1) =
        (xs.filter P).map f
  | [], k, _ => rfl
  | x :: xs, k, h => by
      have ih := filter_zipIdx_of_lt P f i xs (k + 1) (Nat.lt_succ_of_lt h)
      rw [List.zipIdx_cons, List.filter_cons, List.filter_cons]
      have hne : i ≠ k := Nat.ne_of_lt h
      cases hP : P x with
      | true => simpa [hne, hP] using ih
      | false => simpa [hne, hP] using ih

/-- Skipping an index of a list is erasing its entry. -/
theorem filter_zipIdx_ne {α β : Type*} (P : α → Bool) (f : α → β) :
    ∀ (xs : List α) (i k : ℕ),
      ((xs.zipIdx k).filter fun p => i + k ≠ p.2 && P p.1).map (f ·.1) =
        ((xs.eraseIdx i).filter P).map f
  | [], i, k => rfl
  | x :: xs, 0, k => by
      have h := filter_zipIdx_of_lt P f k xs (k + 1) (Nat.lt_succ_self k)
      simpa [List.zipIdx_cons] using h
  | x :: xs, i + 1, k => by
      have ih := filter_zipIdx_ne P f xs i (k + 1)
      have hne : i + 1 + k ≠ k := by omega
      have hindex : i + (k + 1) = i + 1 + k := by omega
      rw [hindex] at ih
      rw [List.zipIdx_cons, List.filter_cons, List.eraseIdx_cons_succ,
        List.filter_cons]
      cases hP : P x with
      | true => simpa [hne, hP] using ih
      | false => simpa [hne, hP] using ih

section Group

variable {py : Builtins} {ratio : List String → List String → ℚ}
  {cfg : TeacherConfig} {uid : String} {items : List TeacherItem}

/-- The penalties the loop collects for item `i` are those against the rest of
the group. -/
theorem similarities_eq (i : ℕ) (item : TeacherItem) :
    similarities ratio cfg items i item =
      penalties ratio cfg (items.eraseIdx i) item := by
  have hothers := filter_zipIdx_ne
    (fun other : TeacherItem => strip other.generatedQuestion ≠ "")
    (fun other => penalty ratio cfg item.generatedQuestion
      other.generatedQuestion) items i 0
  rw [similarities, penalties, ← hothers]
  rfl

theorem penalties_perm (ratio : List String → List String → ℚ)
    (cfg : TeacherConfig) {others others' : List TeacherItem}
    (h : others.Perm others') (item : TeacherItem) :
    (penalties ratio cfg others item).Perm
      (penalties ratio cfg others' item) :=
  ((h.filter _).map _).cons _

/-- The mean penalty against the rest of the group. -/
def meanPenalty (ratio : List String → List String → ℚ) (cfg : TeacherConfig)
    (others : List TeacherItem) (item : TeacherItem) : ℚ :=
  (penalties ratio cfg others item).sum /
    (penalties ratio cfg others item).length

/-- The index of an item does not matter, only what else is in the group. -/
theorem rSim_eq {i : ℕ} {item : TeacherItem} (h : items[i]? = some item) :
    rSim ratio cfg items i item =
      meanPenalty ratio cfg (items.erase item) item := by
  have hothers : (items.eraseIdx i).Perm (items.erase item) := by
    obtain ⟨hi, rfl⟩ := List.getElem?_eq_some_iff.mp h
    exact ((List.getElem_cons_eraseIdx_perm hi).trans
      (List.perm_cons_erase (List.getElem_mem hi))).cons_inv
  have hperm := penalties_perm ratio cfg hothers item
  rw [rSim, similarities_eq, meanPenalty, hperm.sum_eq, hperm.length_eq]

theorem meanPenalty_perm {others others' : List TeacherItem}
    (h : others.Perm others') (item : TeacherItem) :
    meanPenalty ratio cfg others item = meanPenalty ratio cfg others' item := by
  have hperm := penalties_perm ratio cfg h item
  rw [meanPenalty, meanPenalty, hperm.sum_eq, hperm.length_eq]

/-! ## Bounds -/

/-- A similarity with values in the unit interval. -/
def SimilarityInUnit (ratio : List String → List String → ℚ) : Prop :=
  ∀ a b, 0 ≤ tokenSimilarity ratio a b ∧ tokenSimilarity ratio a b ≤ 1

theorem mean_bounds {xs : List ℚ} {b : ℚ} (hne : xs ≠ [])
    (h : ∀ x ∈ xs, 0 ≤ x ∧ x ≤ b) :
    0 ≤ xs.sum / xs.length ∧ xs.sum / xs.length ≤ b := by
  have hpos : (0 : ℚ) < xs.length :=
    Nat.cast_pos.mpr (List.length_pos_iff.mpr hne)
  have hsum : xs.sum ≤ xs.length • b :=
    List.sum_le_card_nsmul xs b fun x hx => (h x hx).2
  constructor
  · exact div_nonneg (List.sum_nonneg fun x hx => (h x hx).1) hpos.le
  · rw [div_le_iff₀ hpos, mul_comm, ← nsmul_eq_mul]
    exact hsum

theorem penalty_bounds (h : SimilarityInUnit ratio) (a b : String) :
    0 ≤ penalty ratio cfg a b ∧
      penalty ratio cfg a b ≤ max 0 (1 - cfg.ttsrTau) :=
  ⟨le_max_left _ _,
    max_le_max (le_refl 0) (sub_le_sub_right (h a b).2 cfg.ttsrTau)⟩

theorem rSim_bounds (cfg : TeacherConfig) (h : SimilarityInUnit ratio)
    (items : List TeacherItem) (i : ℕ) (item : TeacherItem) :
    0 ≤ rSim ratio cfg items i item ∧
      rSim ratio cfg items i item ≤ max 0 (1 - cfg.ttsrTau) := by
  rw [rSim, similarities_eq]
  apply mean_bounds (List.cons_ne_nil _ _)
  intro x hx
  rcases List.mem_cons.mp hx with rfl | hx
  · exact penalty_bounds h _ _
  · obtain ⟨other, -, rfl⟩ := List.mem_map.mp hx
    exact penalty_bounds h _ _

theorem teacherReward_fin (score r : ℚ) :
    teacherReward cfg (.fin score) r =
      .fin (max 0 (4 * score * (1 - score) - cfg.ttsrLambda * r)) := by
  have hvalue : (frontier (.fin score)).sub (.fin (cfg.ttsrLambda * r)) =
      .fin (4 * score * (1 - score) - cfg.ttsrLambda * r) := by
    simp [frontier, PyFloat.mul, PyFloat.sub, PyFloat.add, PyFloat.neg,
      sub_eq_add_neg]
  rw [teacherReward, hvalue, PyFloat.max0, PyFloat.gt]
  split
  · next h => rw [max_eq_right (by simpa using (of_decide_eq_true h).le)]
  · next h => rw [max_eq_left (by simpa using h)]

/-- The reward of any score is in the unit interval. -/
theorem reward_bounds (hlambda : 0 ≤ cfg.ttsrLambda) (score : ℚ) {r : ℚ}
    (hr : 0 ≤ r) :
    0 ≤ max 0 (4 * score * (1 - score) - cfg.ttsrLambda * r) ∧
      max 0 (4 * score * (1 - score) - cfg.ttsrLambda * r) ≤ 1 := by
  refine ⟨le_max_left _ _, max_le zero_le_one ?_⟩
  have hfrontier : 4 * score * (1 - score) ≤ 1 := by
    linarith [sq_nonneg (2 * score - 1)]
  have hpenalty : 0 ≤ cfg.ttsrLambda * r := mul_nonneg hlambda hr
  linarith

/-! ## A finalisation as a map -/

/-- An evaluator that assesses a question by its text. -/
structure Assessor (py : Builtins) where
  evaluation : String → Json
  score : String → ℚ
  rolloutN : String → ℤ
  pseudoTarget : String → String
  decode_eq : ∀ q, decode py (evaluation q) =
    .ok (.fin (score q), rolloutN q, pseudoTarget q)

/-- Its reply to the request of a group. -/
def Assessor.reply (assessor : Assessor py) (items : List TeacherItem) :
    Reply :=
  .payload (.obj [("results",
    .arr ((validQuestions items).map assessor.evaluation))])

/-- What the evaluator says about an item: nothing about an invalid one. -/
def Assessor.itemEvaluation (assessor : Assessor py) (item : TeacherItem) :
    Json :=
  if item.isValid then assessor.evaluation item.generatedQuestion else .null

/-- The result of an item of the group, wherever it stands. -/
def groupResult (ratio : List String → List String → ℚ) (cfg : TeacherConfig)
    (uid : String) (assessor : Assessor py) (items : List TeacherItem)
    (item : TeacherItem) : RewardResult :=
  if item.isValid then
    scored ratio cfg uid items (items.idxOf item) item
      (.fin (assessor.score item.generatedQuestion))
      (assessor.rolloutN item.generatedQuestion)
      (assessor.pseudoTarget item.generatedQuestion)
  else zero uid item false "invalid <question> format"

variable {assessor : Assessor py}

theorem Assessor.evaluation_ne_null (assessor : Assessor py) (q : String) :
    assessor.evaluation q ≠ .null := by
  intro hnull
  have hdecode := assessor.decode_eq q
  rw [hnull] at hdecode
  cases hdecode

theorem perItemEval_map (evaluation : String → Json) :
    ∀ items : List TeacherItem,
      perItemEval items ((validQuestions items).map evaluation) =
        .ok (items.map fun item => if item.isValid then
          evaluation item.generatedQuestion else .null)
  | [] => rfl
  | item :: items => by
      have ih := perItemEval_map evaluation items
      cases hv : item.isValid with
      | true =>
          rw [validQuestions_cons_of_valid hv]
          simp [perItemEval, ih, hv, Except.map]
      | false =>
          rw [validQuestions_cons_of_invalid hv]
          simp [perItemEval, ih, hv, Except.map]

/-- The same group in another order scores an item the same. -/
theorem scored_of_perm {items' : List TeacherItem} (hperm : items.Perm items')
    {i j : ℕ} {item : TeacherItem} (hi : items[i]? = some item)
    (hj : items'[j]? = some item) (score : PyFloat) (rolloutN : ℤ)
    (pseudoTarget : String) :
    scored ratio cfg uid items i item score rolloutN pseudoTarget =
      scored ratio cfg uid items' j item score rolloutN pseudoTarget := by
  unfold scored
  rw [rSim_eq hi, rSim_eq hj, meanPenalty_perm (hperm.erase item),
    hperm.length_eq]

theorem getElem?_idxOf {item : TeacherItem} (h : item ∈ items) :
    items[items.idxOf item]? = some item := by
  rw [List.getElem?_eq_some_iff]
  exact ⟨List.idxOf_lt_length_of_mem h, List.getElem_idxOf _⟩

theorem itemScore_eq_groupResult {i : ℕ} {item : TeacherItem}
    (h : items[i]? = some item) :
    itemScore py ratio cfg uid items i item (assessor.itemEvaluation item) =
      .ok (groupResult ratio cfg uid assessor items item) := by
  rw [Assessor.itemEvaluation, groupResult]
  split
  · rw [itemScore]
    · rw [assessor.decode_eq]
      exact congrArg Except.ok (scored_of_perm (List.Perm.refl _) h
        (getElem?_idxOf (List.mem_of_getElem? h)) _ _ _)
    · exact assessor.evaluation_ne_null _
  · rfl

theorem itemScores_eq_map : ∀ {rest : List TeacherItem} {i : ℕ},
    (∀ k item, rest[k]? = some item → items[i + k]? = some item) →
    itemScores py ratio cfg uid items i rest
        (rest.map assessor.itemEvaluation) =
      (rest.map fun item =>
        (item.future, groupResult ratio cfg uid assessor items item), none)
  | [], i, _ => rfl
  | item :: rest, i, h => by
      have hrest : ∀ k item', rest[k]? = some item' →
          items[i + 1 + k]? = some item' := by
        intro k item' hk
        have := h (k + 1) item' (by simpa using hk)
        rwa [Nat.add_right_comm]
      have hitem : items[i]? = some item := h 0 item rfl
      rw [List.map_cons, itemScores, itemScore_eq_groupResult hitem,
        itemScores_eq_map hrest]
      rfl

/-- With such an evaluator a finalisation is a map over the items. -/
theorem finalizeTeacherGroup_eq_map :
    finalizeTeacherGroup py ratio cfg uid items (assessor.reply items) =
      (items.map fun item =>
        (item.future, groupResult ratio cfg uid assessor items item), none) := by
  have hsent : evaluations cfg items (assessor.reply items) =
      .ok ((validQuestions items).map assessor.evaluation) := by
    rw [evaluations]
    split
    · next hnone => rw [hnone]; rfl
    · simp [evaluateQuestions, Assessor.reply, Dict.lookupEntries]
  have hattached := perItemEval_map assessor.evaluation items
  rw [finalizeTeacherGroup_of_ok hsent hattached]
  exact itemScores_eq_map fun k item h => by rwa [Nat.zero_add]

theorem groupResult_of_perm {items' : List TeacherItem}
    (hperm : items'.Perm items) {item : TeacherItem} (h : item ∈ items) :
    groupResult ratio cfg uid assessor items' item =
      groupResult ratio cfg uid assessor items item := by
  rw [groupResult, groupResult]
  split
  · exact scored_of_perm hperm (getElem?_idxOf (hperm.mem_iff.mpr h))
      (getElem?_idxOf h) _ _ _
  · rfl

/-! ## Invalid items -/

/-- The rest of the group without its invalid items, at the valid item `i`. -/
theorem filter_eraseIdx {α : Type*} (P : α → Bool) :
    ∀ {xs : List α} {i : ℕ} {x : α}, xs[i]? = some x → P x = true →
      (xs.eraseIdx i).filter P =
        (xs.filter P).eraseIdx ((xs.take i).countP P)
  | [], i, x, h, _ => by cases h
  | y :: xs, 0, x, h, hx => by
      obtain rfl : y = x := by simpa using h
      simp [hx]
  | y :: xs, i + 1, x, h, hx => by
      have htail : xs[i]? = some x := by simpa using h
      have ih := filter_eraseIdx P htail hx
      cases hy : P y with
      | true => simp [hy, ih]
      | false => simp [hy, ih]

/-- Of extracted items, the ones compared with are the valid ones. -/
theorem filter_nonblank {loads : String → Except LoadsError Json}
    {others : List TeacherItem} (h : ∀ x ∈ others, FromExtractor py loads x) :
    others.filter (fun other => strip other.generatedQuestion ≠ "") =
      others.filter (·.isValid) := by
  refine List.filter_congr fun other hother => ?_
  rw [Bool.eq_iff_iff, decide_eq_true_iff]
  exact (h other hother).isValid_iff.symm

/-- An invalid item is in nobody's penalties: they are those in the group
without the invalid items. -/
theorem similarities_filter {loads : String → Except LoadsError Json}
    (h : ∀ x ∈ items, FromExtractor py loads x) {i : ℕ} {item : TeacherItem}
    (hitem : items[i]? = some item) (hv : item.isValid = true) :
    similarities ratio cfg items i item =
      similarities ratio cfg (items.filter (·.isValid)) (validBefore items i)
        item := by
  have hothers : ∀ x ∈ items.eraseIdx i, FromExtractor py loads x :=
    fun x hx => h x (List.mem_of_mem_eraseIdx hx)
  have hvalid : ∀ x ∈ (items.eraseIdx i).filter (·.isValid),
      FromExtractor py loads x :=
    fun x hx => hothers x (List.mem_of_mem_filter hx)
  rw [similarities_eq, similarities_eq, validBefore,
    ← filter_eraseIdx (fun x => x.isValid) hitem hv, penalties, penalties,
    filter_nonblank hothers, filter_nonblank hvalid, List.filter_filter]
  simp only [Bool.and_self]

theorem rSim_filter {loads : String → Except LoadsError Json}
    (h : ∀ x ∈ items, FromExtractor py loads x) {i : ℕ} {item : TeacherItem}
    (hitem : items[i]? = some item) (hv : item.isValid = true) :
    rSim ratio cfg items i item =
      rSim ratio cfg (items.filter (·.isValid)) (validBefore items i) item := by
  unfold rSim
  rw [similarities_filter h hitem hv]

/-! ## The group reward -/

theorem groupResult_of_valid {i : ℕ} {item : TeacherItem}
    (hitem : items[i]? = some item) (hv : item.isValid = true) :
    groupResult ratio cfg uid assessor items item =
      scored ratio cfg uid items i item
        (.fin (assessor.score item.generatedQuestion))
        (assessor.rolloutN item.generatedQuestion)
        (assessor.pseudoTarget item.generatedQuestion) := by
  rw [groupResult, if_pos hv]
  exact scored_of_perm (List.Perm.refl _)
    (getElem?_idxOf (List.mem_of_getElem? hitem)) hitem _ _ _

/-- What a result says about the item: an invalid one gets 0, a valid one the
reward of the group without its invalid items. -/
structure GroupRewardOf (ratio : List String → List String → ℚ)
    (cfg : TeacherConfig) (assessor : Assessor py) (items : List TeacherItem)
    (i : ℕ) (item : TeacherItem) (result : RewardResult) (reward r : ℚ) :
    Prop where
  reward_score : result.rewardScore = .fin reward
  r_sim : result.field "r_sim" = some (.float (.fin r))
  of_invalid : item.isValid = false → reward = 0 ∧ r = 0
  r_sim_of_valid : item.isValid = true →
    r = rSim ratio cfg (items.filter (·.isValid)) (validBefore items i) item
  reward_of_valid : item.isValid = true →
    .fin reward =
      teacherReward cfg (.fin (assessor.score item.generatedQuestion)) r

theorem groupResult_rewardOf {loads : String → Except LoadsError Json}
    (h : ∀ x ∈ items, FromExtractor py loads x)
    (hratio : SimilarityInUnit ratio) (hlambda : 0 ≤ cfg.ttsrLambda) {i : ℕ}
    {item : TeacherItem} (hitem : items[i]? = some item) :
    ∃ reward r : ℚ,
      GroupRewardOf ratio cfg assessor items i item
        (groupResult ratio cfg uid assessor items item) reward r ∧
      0 ≤ reward ∧ reward ≤ 1 ∧ 0 ≤ r ∧ r ≤ max 0 (1 - cfg.ttsrTau) := by
  cases hv : item.isValid with
  | false =>
      refine ⟨0, 0, ?_, le_refl 0, zero_le_one, le_refl 0, le_max_left _ _⟩
      rw [groupResult, hv]
      constructor
      · rfl
      · rfl
      · intro _
        exact ⟨rfl, rfl⟩
      · rw [hv]
        intro hfalse
        cases hfalse
      · rw [hv]
        intro hfalse
        cases hfalse
  | true =>
      have hr : rSim ratio cfg items i item = _ := rSim_filter h hitem hv
      obtain ⟨hnonneg, hle⟩ := rSim_bounds cfg hratio items i item
      obtain ⟨hreward, hone⟩ := reward_bounds hlambda
        (assessor.score item.generatedQuestion) hnonneg
      refine ⟨_, rSim ratio cfg items i item, ?_, hreward, hone, hnonneg, hle⟩
      rw [groupResult_of_valid hitem hv]
      constructor
      · exact teacherReward_fin _ _
      · rfl
      · rw [hv]
        intro hfalse
        cases hfalse
      · intro _
        exact hr
      · intro _
        exact (teacherReward_fin _ _).symm

/-- **Range and order independence of the group reward.** -/
theorem finalizeTeacherGroup_range_and_order
    (py : Builtins) (loads : String → Except LoadsError Json)
    (ratio : List String → List String → ℚ) (cfg : TeacherConfig)
    (uid : String) (assessor : Assessor py) (items : List TeacherItem)
    (hitems : ∀ item ∈ items, FromExtractor py loads item)
    (hratio : SimilarityInUnit ratio) (hlambda : 0 ≤ cfg.ttsrLambda) :
    ∃ result : TeacherItem → RewardResult,
      -- in whatever order the group arrived
      (∀ items' : List TeacherItem, items'.Perm items →
        finalizeTeacherGroup py ratio cfg uid items'
            (assessor.reply items') =
          (items'.map fun item => (item.future, result item), none)) ∧
      -- and whatever invalid items came with it
      ∀ i item, items[i]? = some item → ∃ reward r : ℚ,
        GroupRewardOf ratio cfg assessor items i item (result item) reward r ∧
        0 ≤ reward ∧ reward ≤ 1 ∧ 0 ≤ r ∧ r ≤ max 0 (1 - cfg.ttsrTau) := by
  refine ⟨groupResult ratio cfg uid assessor items, ?_, ?_⟩
  · intro items' hperm
    rw [finalizeTeacherGroup_eq_map]
    apply Prod.ext
    · apply List.map_congr_left
      intro item hitem
      rw [groupResult_of_perm hperm (hperm.mem_iff.mp hitem)]
    · rfl
  · intro i item hitem
    exact groupResult_rewardOf hitems hratio hlambda hitem

end Group

/-- An evaluator under which every question is half solved. -/
def halfSolved : Assessor Builtins.plain where
  evaluation _ := evaluation (.float (.fin (1 / 2)))
  score _ := 1 / 2
  rolloutN _ := 8
  pseudoTarget _ := ""
  decode_eq _ := rfl

/-- A valid rollout and one without a question. -/
def mixedGroup : List TeacherItem :=
  [⟨"Is 91 prime?", "2 + 2 = ?", true, 0⟩, ⟨"", "2 + 2 = ?", false, 1⟩]

/-- The similarity of equal questions and of questions without a common
word. -/
def equalRatio (a b : List String) : ℚ := if a = b then 1 else 0

theorem similarityInUnit_equalRatio : SimilarityInUnit equalRatio := by
  intro a b
  unfold tokenSimilarity equalRatio
  split_ifs <;> norm_num

theorem fromExtractor_mixedGroup : ∀ item ∈ mixedGroup,
    FromExtractor Builtins.plain (fun _ => .error .jsonDecodeError) item := by
  intro item hitem
  simp only [mixedGroup, List.mem_cons, List.not_mem_nil, or_false] at hitem
  rcases hitem with rfl | rfl
  · exact ⟨"<question> Is 91 prime? </question>", rfl⟩
  · exact ⟨"I cannot think of one.", rfl⟩

/-- The valid rollout gets the whole frontier reward, its question being unlike
the reference, and the other one nothing, in either order. -/
theorem finalizeTeacherGroup_range_and_order_mixed :
    ∃ result : TeacherItem → RewardResult,
      finalizeTeacherGroup Builtins.plain equalRatio exampleTeacherConfig "u"
          mixedGroup.reverse (halfSolved.reply mixedGroup.reverse) =
        (mixedGroup.reverse.map fun item => (item.future, result item),
          none) ∧
      finalizeTeacherGroup Builtins.plain equalRatio exampleTeacherConfig "u"
          mixedGroup (halfSolved.reply mixedGroup) =
        (mixedGroup.map fun item => (item.future, result item), none) ∧
      mixedGroup.map (fun item => (result item).rewardScore) =
        [.fin 1, .fin 0] := by
  obtain ⟨result, horder, hreward⟩ := finalizeTeacherGroup_range_and_order
    Builtins.plain _ equalRatio exampleTeacherConfig "u" halfSolved mixedGroup
    fromExtractor_mixedGroup similarityInUnit_equalRatio (by decide)
  refine ⟨result, horder _ (List.reverse_perm mixedGroup), horder _ (.refl _),
    ?_⟩
  obtain ⟨_, r, hvalid, -⟩ := hreward 0 _ rfl
  obtain ⟨_, _, hinvalid, -⟩ := hreward 1 _ rfl
  have hr : r = 0 := by
    rw [hvalid.r_sim_of_valid rfl]
    decide +kernel
  have hone := hvalid.reward_of_valid rfl
  rw [hr, teacherReward_fin] at hone
  simp only [mixedGroup, List.map_cons, List.map_nil]
  rw [hvalid.reward_score, hinvalid.reward_score, hone,
    (hinvalid.of_invalid rfl).1]
  norm_num [halfSolved]

end TTSR.Reward
