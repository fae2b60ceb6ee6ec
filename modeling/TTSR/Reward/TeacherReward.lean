import Mathlib.Algebra.BigOperators.Group.List.Basic
import Mathlib.Algebra.Order.Field.Rat
import TTSR.Foundation.Futures
import TTSR.Reward.GeneratedQuestion
import TTSR.Reward.RewardResult

/-!
# The frontier reward of a Teacher group

The second half of `TTSRStudentFrontierTeacherRewardManager._finalize_group`,
from the popped items to the results of their futures. One request asks the
Student evaluator about all valid questions of the group. A failure of the
request answers every item with the zero result; the decoding of the single
evaluations happens afterwards, outside the handler, and an exception there
ends the loop with the items before it answered and the items after it not.

`Answered` says that a finalisation answers everybody, and
`answered_iff_decodable` when it does: the evaluator has to send, for every
question, `null` or an object whose two numbers convert.
-/

namespace TTSR.Reward

open TTSR.Foundation TTSR.Foundation.Text TTSR.Foundation.Futures

/-! ## Configuration, items, the zero result -/

/-- `TTSRStudentFrontierTeacherRewardManager.__init__`. -/
structure TeacherConfig where
  groupWaitMs : ℤ
  resultTimeoutS : ℚ
  studentEvalUrl : String
  studentEvalTimeoutS : ℚ
  ttsrLambda : ℚ
  ttsrTau : ℚ
  expectedGroupSize : ℕ
  expectedGroupSize_pos : 0 < expectedGroupSize
  studentEvalUrl_ne : studentEvalUrl ≠ ""

/-- The options of `reward_kwargs`, absent ones `none`. -/
structure TeacherKwargs where
  groupWaitMs : Option ℤ
  resultTimeoutS : Option ℚ
  studentEvalUrl : Option String
  studentEvalTimeoutS : Option ℚ
  ttsrLambda : Option ℚ
  ttsrTau : Option ℚ
  expectedGroupSize : Option ℤ

/-- The configuration, or the text of the `ValueError`. -/
def TeacherConfig.ofKwargs (kw : TeacherKwargs) :
    Except String TeacherConfig :=
  if h : strip (kw.studentEvalUrl.getD "") ≠ "" then
    .ok {
      groupWaitMs := kw.groupWaitMs.getD 1000
      resultTimeoutS := kw.resultTimeoutS.getD 300
      studentEvalUrl := strip (kw.studentEvalUrl.getD "")
      studentEvalTimeoutS := kw.studentEvalTimeoutS.getD 240
      ttsrLambda := kw.ttsrLambda.getD 1
      ttsrTau := kw.ttsrTau.getD (3 / 4)
      expectedGroupSize := (max 1 (kw.expectedGroupSize.getD 1)).toNat
      expectedGroupSize_pos := by omega
      studentEvalUrl_ne := h }
  else
    .error "student_eval_url is required for the paper-faithful Teacher reward"

/-- `_PendingTeacherItem`. -/
structure TeacherItem where
  generatedQuestion : String
  referenceQuestion : String
  formatOk : Bool
  future : ℕ
deriving DecidableEq

/-- The question of a valid item is sent to the evaluator. -/
def TeacherItem.isValid (item : TeacherItem) : Bool :=
  item.formatOk && item.generatedQuestion ≠ ""

/-- `_zero`. -/
def zero (uid : String) (item : TeacherItem) (formatOk : Bool)
    (error : String) : RewardResult where
  rewardScore := .fin 0
  rewardExtraInfo :=
    [("group_uid", .str uid),
     ("generated_question", .str item.generatedQuestion),
     ("reference_question", .str item.referenceQuestion),
     ("format_ok", .int (if formatOk then 1 else 0)),
     ("pseudo_correctness", .float (.fin 0)),
     ("frontier_reward", .float (.fin 0)),
     ("r_sim", .float (.fin 0)),
     ("acc", .float (.fin 0)),
     ("evaluator_error", .str error)]

/-! ## The request -/

/-- How the exchange with the evaluator's endpoint can go. -/
inductive Reply where
  /-- An `OSError`, `URLError` or `JSONDecodeError` with this text. -/
  | unavailable (exc : String)
  /-- Any other exception, with this text. -/
  | raised (exc : String)
  | payload (j : Json)

/-- `evaluate_questions`, up to the text of the exception it raises. -/
def evaluateQuestions (url : String) (reply : Reply) (questions : List String) :
    Except String (List Json) :=
  match reply with
  | .unavailable exc =>
      .error ("Student evaluator unavailable at " ++ url ++ ": " ++ exc)
  | .raised exc => .error exc
  | .payload (.obj fields) =>
      match (Dict.lookupEntries "results" fields).getD (.arr []) with
      | .arr results =>
          if results.length = questions.length then .ok results
          else .error
            "Student evaluator returned malformed or incomplete results"
      | _ => .error
          "Student evaluator returned malformed or incomplete results"
  | .payload j =>
      .error ("'" ++ j.typeName ++ "' object has no attribute 'get'")

def validQuestions (items : List TeacherItem) : List String :=
  (items.filter (·.isValid)).map (·.generatedQuestion)

@[simp]
theorem validQuestions_nil : validQuestions [] = [] :=
  rfl

theorem validQuestions_cons_of_valid {item : TeacherItem}
    {items : List TeacherItem} (hv : item.isValid = true) :
    validQuestions (item :: items) =
      item.generatedQuestion :: validQuestions items := by
  simp [validQuestions, hv]

theorem validQuestions_cons_of_invalid {item : TeacherItem}
    {items : List TeacherItem} (hv : item.isValid = false) :
    validQuestions (item :: items) = validQuestions items := by
  simp [validQuestions, hv]

/-- `evaluations`: no request is made for a group without a valid question. -/
def evaluations (cfg : TeacherConfig) (items : List TeacherItem)
    (reply : Reply) : Except String (List Json) :=
  if validQuestions items = [] then .ok []
  else evaluateQuestions cfg.studentEvalUrl reply (validQuestions items)

/-- `per_item_eval`: the valid items take the evaluations in turn, the others
get `None`. An exhausted iterator raises an exception without text. -/
def perItemEval : List TeacherItem → List Json → Except String (List Json)
  | [], _ => .ok []
  | item :: items, evs =>
      if item.isValid then
        match evs with
        | [] => .error ""
        | ev :: evs => (perItemEval items evs).map (ev :: ·)
      else (perItemEval items evs).map (Json.null :: ·)

/-! ## The reward -/

/-- The penalties of item `i` before averaging: one for its reference
question, one for every other question of the group that is not blank. -/
def similarities (ratio : List String → List String → ℚ) (cfg : TeacherConfig)
    (items : List TeacherItem) (i : ℕ) (item : TeacherItem) : List ℚ :=
  max 0 (tokenSimilarity ratio item.generatedQuestion item.referenceQuestion -
      cfg.ttsrTau) ::
    (items.zipIdx.filter fun p =>
      i ≠ p.2 && strip p.1.generatedQuestion ≠ "").map fun p =>
        max 0 (tokenSimilarity ratio item.generatedQuestion
          p.1.generatedQuestion - cfg.ttsrTau)

def rSim (ratio : List String → List String → ℚ) (cfg : TeacherConfig)
    (items : List TeacherItem) (i : ℕ) (item : TeacherItem) : ℚ :=
  (similarities ratio cfg items i item).sum /
    (similarities ratio cfg items i item).length

/-- `4.0 * score * (1.0 - score)`. -/
def frontier (score : PyFloat) : PyFloat :=
  ((PyFloat.fin 4).mul score).mul ((PyFloat.fin 1).sub score)

def teacherReward (cfg : TeacherConfig) (score : PyFloat) (rSim : ℚ) :
    PyFloat :=
  ((frontier score).sub (.fin (cfg.ttsrLambda * rSim))).max0

/-- The result of an item that has an evaluation, from what was decoded. -/
def scored (ratio : List String → List String → ℚ) (cfg : TeacherConfig)
    (uid : String) (items : List TeacherItem) (i : ℕ) (item : TeacherItem)
    (score : PyFloat) (rolloutN : ℤ) (pseudoTarget : String) : RewardResult :=
  let r := rSim ratio cfg items i item
  let reward := teacherReward cfg score r
  { rewardScore := reward
    rewardExtraInfo :=
      [("group_uid", .str uid),
       ("generated_question", .str item.generatedQuestion),
       ("reference_question", .str item.referenceQuestion),
       ("format_ok", .int 1),
       ("group_size", .int items.length),
       ("student_rollout_n", .int rolloutN),
       ("pseudo_target", .str pseudoTarget),
       ("pseudo_correctness", .float score),
       ("frontier_reward", .float (frontier score)),
       ("r_sim", .float (.fin r)),
       ("tau", .float (.fin cfg.ttsrTau)),
       ("lambda", .float (.fin cfg.ttsrLambda)),
       ("acc", .float reward)] }

/-- What the loop reads out of an evaluation: the score, the number of
rollouts and the pseudo target. -/
def decode (py : Builtins) (ev : Json) :
    Except ErrorKind (PyFloat × ℤ × String) := do
  let score ← (← ev.get "pseudo_correctness" (.float (.fin 0))).toFloat py
  let rolloutN ← (← ev.get "rollout_n" (.int 0)).toInt py
  let pseudoTarget ← ev.get "pseudo_target" (.str "")
  return (score, rolloutN, pseudoTarget.toStr py)

section Finalize

variable (py : Builtins) (ratio : List String → List String → ℚ)
  (cfg : TeacherConfig) (uid : String) (items : List TeacherItem)

/-- One round of the loop: the result of item `i` with its evaluation. -/
def itemScore (i : ℕ) (item : TeacherItem) :
    Json → Except ErrorKind RewardResult
  | .null => .ok (zero uid item false "invalid <question> format")
  | ev => (decode py ev).map fun (score, rolloutN, pseudoTarget) =>
      scored ratio cfg uid items i item score rolloutN pseudoTarget

/-- The loop from position `i` on: the results it computes, and the exception
that ends it, if one does. -/
def itemScores : ℕ → List TeacherItem → List Json →
    List (ℕ × RewardResult) × Option ErrorKind
  | i, item :: rest, ev :: evs =>
      match itemScore py ratio cfg uid items i item ev with
      | .error exc => ([], some exc)
      | .ok result =>
          let (results, exc) := itemScores (i + 1) rest evs
          ((item.future, result) :: results, exc)
  | _, _, _ => ([], none)

/-- `_finalize_group` on the popped items: the results, each with the future it
is for, and the exception that escapes. -/
def finalizeTeacherGroup (reply : Reply) :
    List (ℕ × RewardResult) × Option ErrorKind :=
  match (evaluations cfg items reply).bind (perItemEval items) with
  | .error exc =>
      (items.map fun item => (item.future, zero uid item item.formatOk exc),
        none)
  | .ok evs => itemScores py ratio cfg uid items 0 items evs

end Finalize

/-! ## Attaching the evaluations -/

/-- The list a successful exchange delivers: one value for each question. -/
def sentEvaluations (items : List TeacherItem) : Reply → Option (List Json)
  | .payload (.obj fields) =>
      match (Dict.lookupEntries "results" fields).getD (.arr []) with
      | .arr results =>
          if results.length = (validQuestions items).length then some results
          else none
      | _ => none
  | _ => none

/-- The number of valid items before position `i`. -/
def validBefore (items : List TeacherItem) (i : ℕ) : ℕ :=
  (items.take i).countP TeacherItem.isValid

/-- The evaluation of the question of item `i`: the valid items before it have
taken theirs. -/
def ownEvaluation (items : List TeacherItem) (reply : Reply) (i : ℕ) :
    Option Json := do
  let item ← items[i]?
  let results ← sentEvaluations items reply
  if item.isValid then results[validBefore items i]? else none

theorem evaluateQuestions_eq_ok_iff {url : String} {items : List TeacherItem}
    {reply : Reply} {rs : List Json} :
    evaluateQuestions url reply (validQuestions items) = .ok rs ↔
      sentEvaluations items reply = some rs := by
  match reply with
  | .unavailable exc => simp [evaluateQuestions, sentEvaluations]
  | .raised exc => simp [evaluateQuestions, sentEvaluations]
  | .payload (.obj fields) =>
      simp only [evaluateQuestions, sentEvaluations]
      cases (Dict.lookupEntries "results" fields).getD (.arr []) with
      | arr results =>
          by_cases h : results.length = (validQuestions items).length <;>
            simp [h]
      | _ => simp
  | .payload .null | .payload (.bool _) | .payload (.int _)
  | .payload (.float _) | .payload (.str _) | .payload (.arr _) =>
      simp [evaluateQuestions, sentEvaluations]

theorem length_sentEvaluations {items : List TeacherItem} {reply : Reply}
    {rs : List Json} (h : sentEvaluations items reply = some rs) :
    rs.length = (validQuestions items).length := by
  unfold sentEvaluations at h
  split at h
  · split at h
    · split_ifs at h with hlen
      exact Option.some.inj h ▸ hlen
    · cases h
  · cases h

/-- The evaluations of a group, attached: as many as there are items, `null`
for the invalid ones and the valid ones in turn. -/
theorem perItemEval_spec : ∀ {items : List TeacherItem} {evs : List Json},
    evs.length = (validQuestions items).length →
    ∃ es, perItemEval items evs = .ok es ∧ es.length = items.length ∧
      (∀ ev ∈ es, ev = .null ∨ ev ∈ evs) ∧ (∀ ev ∈ evs, ev ∈ es) ∧
      ∀ (i : ℕ) (item : TeacherItem), items[i]? = some item → es[i]? = some
        (if item.isValid then (evs[validBefore items i]?).getD .null else .null)
  | [], evs, hlen => by
      obtain rfl : evs = [] := by simpa using hlen
      exact ⟨[], rfl, rfl, by simp, by simp, by simp⟩
  | item :: items, evs, hlen => by
      by_cases hv : item.isValid = true
      · -- a valid item takes the first evaluation, an invalid one takes none
        rw [validQuestions_cons_of_valid hv] at hlen
        match evs, hlen with
        | ev :: evs, hlen =>
            have hlen' : evs.length = (validQuestions items).length :=
              Nat.succ.inj hlen
            obtain ⟨es, hes, hl, hsub, hsup, hget⟩ := perItemEval_spec hlen'
            refine ⟨ev :: es, by simp [perItemEval, hv, hes, Except.map],
              by simp [hl], ?_, ?_, ?_⟩
            · intro e he
              rcases List.mem_cons.mp he with rfl | he
              · exact Or.inr List.mem_cons_self
              · exact (hsub e he).imp_right (List.mem_cons_of_mem _)
            · intro e he
              rcases List.mem_cons.mp he with rfl | he
              · exact List.mem_cons_self
              · exact List.mem_cons_of_mem _ (hsup e he)
            · rintro (_ | i) item' hitem
              · obtain rfl : item = item' := by simpa using hitem
                simp [hv, validBefore]
              · simpa [hv, validBefore] using hget i item' (by simpa using hitem)
      · rw [Bool.not_eq_true] at hv
        rw [validQuestions_cons_of_invalid hv] at hlen
        obtain ⟨es, hes, hl, hsub, hsup, hget⟩ := perItemEval_spec hlen
        refine ⟨.null :: es, by simp [perItemEval, hv, hes, Except.map],
          by simp [hl], ?_, ?_, ?_⟩
        · intro e he
          rcases List.mem_cons.mp he with rfl | he
          · exact Or.inl rfl
          · exact hsub e he
        · exact fun e he => List.mem_cons_of_mem _ (hsup e he)
        · rintro (_ | i) item' hitem
          · obtain rfl : item = item' := by simpa using hitem
            simp [hv]
          · simpa [hv, validBefore] using hget i item' (by simpa using hitem)

/-! ## The loop -/

/-- The evaluations the loop can decode: `null`, or an object whose score
converts to a float and whose number of rollouts converts to an integer. -/
def Decodable (py : Builtins) : Json → Prop
  | .null => True
  | .obj fields =>
      (∃ score, ((Dict.lookupEntries "pseudo_correctness" fields).getD
        (.float (.fin 0))).toFloat py = .ok score) ∧
      (∃ rolloutN, ((Dict.lookupEntries "rollout_n" fields).getD
        (.int 0)).toInt py = .ok rolloutN)
  | _ => False

section Loop

variable {py : Builtins} {ratio : List String → List String → ℚ}
  {cfg : TeacherConfig} {uid : String} {items : List TeacherItem}

/-- The two conversions of `decode` are the only ones that can fail. -/
theorem decode_ok_iff (fields : List (String × Json)) :
    (∃ d, decode py (.obj fields) = .ok d) ↔ Decodable py (.obj fields) := by
  simp only [decode, Json.get, Decodable, bind, Except.bind]
  cases ((Dict.lookupEntries "pseudo_correctness" fields).getD
    (.float (.fin 0))).toFloat py with
  | error exc => simp
  | ok score =>
      cases ((Dict.lookupEntries "rollout_n" fields).getD (.int 0)).toInt py with
      | error exc => simp
      | ok rolloutN =>
          exact ⟨fun _ => ⟨⟨score, rfl⟩, rolloutN, rfl⟩, fun _ => ⟨_, rfl⟩⟩

theorem itemScore_ok_iff (i : ℕ) (item : TeacherItem) (ev : Json) :
    (∃ r, itemScore py ratio cfg uid items i item ev = .ok r) ↔
      Decodable py ev := by
  cases ev with
  | null => simp [itemScore, Decodable]
  | obj fields =>
      rw [← decode_ok_iff, itemScore]
      · cases decode py (.obj fields) <;> simp [Except.map]
      · exact Json.noConfusion
  | _ =>
      simp [itemScore, Decodable, decode, Json.get, bind, Except.bind,
        Except.map]

/-- The loop ends without an exception if and only if every evaluation can be
decoded. -/
theorem itemScores_ends_iff : ∀ {rest : List TeacherItem} {evs : List Json}
    {i : ℕ}, evs.length = rest.length →
    ((itemScores py ratio cfg uid items i rest evs).2 = none ↔
      ∀ ev ∈ evs, Decodable py ev)
  | [], [], i, _ => by simp [itemScores]
  | item :: rest, ev :: evs, i, hlen => by
      have ih : (itemScores py ratio cfg uid items (i + 1) rest evs).2 = none ↔
          ∀ ev ∈ evs, Decodable py ev :=
        itemScores_ends_iff (by simpa using hlen)
      have hhead : (∃ r, itemScore py ratio cfg uid items i item ev = .ok r) ↔
          Decodable py ev := itemScore_ok_iff i item ev
      rw [itemScores, List.forall_mem_cons, ← ih, ← hhead]
      cases itemScore py ratio cfg uid items i item ev <;> simp

/-- A loop that ends without an exception has computed the result of every
item from the evaluation at its place. -/
theorem itemScores_results : ∀ {rest : List TeacherItem} {evs : List Json}
    {i : ℕ}, evs.length = rest.length →
    (itemScores py ratio cfg uid items i rest evs).2 = none →
    (itemScores py ratio cfg uid items i rest evs).1.map Prod.fst =
        rest.map (·.future) ∧
    ∀ k item ev, rest[k]? = some item → evs[k]? = some ev →
      ∃ r, itemScore py ratio cfg uid items (i + k) item ev = .ok r ∧
        (item.future, r) ∈ (itemScores py ratio cfg uid items i rest evs).1
  | [], [], i, _, _ => by simp [itemScores]
  | item :: rest, ev :: evs, i, hlen, hend => by
      rw [itemScores] at hend ⊢
      cases hr : itemScore py ratio cfg uid items i item ev with
      | error exc =>
          rw [hr] at hend
          cases hend
      | ok r =>
          rw [hr] at hend
          have hlen' : evs.length = rest.length := by simpa using hlen
          obtain ⟨hfst, hget⟩ := itemScores_results hlen' hend
          refine ⟨by simp [hfst], ?_⟩
          rintro (_ | k) item' ev' hitem hev
          · obtain rfl : item = item' := by simpa using hitem
            obtain rfl : ev = ev' := by simpa using hev
            exact ⟨r, hr, List.mem_cons_self⟩
          · obtain ⟨r', hr', hmem⟩ := hget k item' ev' (by simpa using hitem)
              (by simpa using hev)
            refine ⟨r', ?_, List.mem_cons_of_mem _ hmem⟩
            rwa [Nat.add_right_comm] at hr'

/-- Every result the loop computes is the result of an item from an
evaluation, whether or not the loop reaches its end. -/
theorem mem_itemScores : ∀ {rest : List TeacherItem} {evs : List Json} {i f : ℕ}
    {r : RewardResult}, (f, r) ∈ (itemScores py ratio cfg uid items i rest evs).1 →
    ∃ k item ev, rest[k]? = some item ∧ item.future = f ∧
      itemScore py ratio cfg uid items (i + k) item ev = .ok r
  | [], _, i, f, r, h => by simp [itemScores] at h
  | item :: rest, [], i, f, r, h => by simp [itemScores] at h
  | item :: rest, ev :: evs, i, f, r, h => by
      rw [itemScores] at h
      cases hr : itemScore py ratio cfg uid items i item ev with
      | error exc =>
          rw [hr] at h
          cases h
      | ok r' =>
          rw [hr] at h
          rcases List.mem_cons.mp h with heq | htail
          · obtain ⟨rfl, rfl⟩ := Prod.mk.inj heq
            exact ⟨0, item, ev, rfl, rfl, hr⟩
          · obtain ⟨k, item', ev', hitem, hf, hr'⟩ := mem_itemScores htail
            refine ⟨k + 1, item', ev', hitem, hf, ?_⟩
            rwa [Nat.add_right_comm] at hr'

theorem itemScore_decoded {i : ℕ} {item : TeacherItem} {ev : Json}
    {r : RewardResult} (hnull : ev ≠ .null)
    (h : itemScore py ratio cfg uid items i item ev = .ok r) :
    ∃ score rolloutN pseudoTarget,
      decode py ev = .ok (score, rolloutN, pseudoTarget) ∧
      r = scored ratio cfg uid items i item score rolloutN pseudoTarget := by
  rw [itemScore] at h
  · cases hd : decode py ev with
    | error exc =>
        rw [hd] at h
        cases h
    | ok d =>
        obtain ⟨score, rolloutN, pseudoTarget⟩ := d
        rw [hd] at h
        exact ⟨score, rolloutN, pseudoTarget, rfl, (Except.ok.inj h).symm⟩
  · exact hnull

/-- A result of a finalisation belongs to one item of the group: it reports a
failed evaluation or an invalid format, or scores the item against the group. -/
theorem mem_finalizeTeacherGroup {reply : Reply} {f : ℕ} {r : RewardResult}
    (h : (f, r) ∈ (finalizeTeacherGroup py ratio cfg uid items reply).1) :
    ∃ i item, items[i]? = some item ∧ item.future = f ∧
      ((∃ exc, r = zero uid item item.formatOk exc) ∨
        r = zero uid item false "invalid <question> format" ∨
        ∃ score rolloutN pseudoTarget,
          r = scored ratio cfg uid items i item score rolloutN pseudoTarget) := by
  unfold finalizeTeacherGroup at h
  split at h
  · obtain ⟨item, hmem, heq⟩ := List.mem_map.mp h
    obtain ⟨rfl, rfl⟩ := Prod.mk.inj heq
    obtain ⟨i, hi⟩ := List.getElem?_of_mem hmem
    exact ⟨i, item, hi, rfl, Or.inl ⟨_, rfl⟩⟩
  · obtain ⟨k, item, ev, hitem, hf, hr⟩ := mem_itemScores h
    rw [Nat.zero_add] at hr
    refine ⟨k, item, hitem, hf, Or.inr ?_⟩
    by_cases hnull : ev = .null
    · rw [hnull] at hr
      exact Or.inl (Except.ok.inj hr).symm
    · obtain ⟨score, rolloutN, pseudoTarget, -, heq⟩ :=
        itemScore_decoded hnull hr
      exact Or.inr ⟨score, rolloutN, pseudoTarget, heq⟩

end Loop

/-! ## Who is answered -/

/-- The result of item `i` is the right one: made from the item's own
evaluation if it has one that is not `null`, and the zero result if not. -/
def OwnResult (py : Builtins) (ratio : List String → List String → ℚ)
    (cfg : TeacherConfig) (uid : String) (items : List TeacherItem)
    (reply : Reply) (i : ℕ) (item : TeacherItem) (r : RewardResult) : Prop :=
  match ownEvaluation items reply i with
  | none | some .null => ∃ formatOk error, r = zero uid item formatOk error
  | some ev => ∃ score rolloutN pseudoTarget,
      decode py ev = .ok (score, rolloutN, pseudoTarget) ∧
      r = scored ratio cfg uid items i item score rolloutN pseudoTarget

/-- A finalisation that finds the futures `l` done answers every item. -/
structure Answered (py : Builtins) (ratio : List String → List String → ℚ)
    (cfg : TeacherConfig) (uid : String) (items : List TeacherItem)
    (reply : Reply) (l : Log RewardResult) : Prop where
  ends : (finalizeTeacherGroup py ratio cfg uid items reply).2 = none
  completed : ∀ i item, items[i]? = some item →
    isDone l item.future = false →
    ∃ r, (item.future, .result r) ∈
        setResults l (finalizeTeacherGroup py ratio cfg uid items reply).1 ∧
      OwnResult py ratio cfg uid items reply i item r
  failed : ∀ exc, evaluations cfg items reply = .error exc →
    ∀ item ∈ items, isDone l item.future = false →
    ∃ r, (item.future, .result r) ∈
        setResults l (finalizeTeacherGroup py ratio cfg uid items reply).1 ∧
      r.rewardScore = .fin 0

/-- Every evaluation the endpoint sent for the group can be decoded. -/
def AllDecodable (py : Builtins) (items : List TeacherItem) (reply : Reply) :
    Prop :=
  ∀ rs, sentEvaluations items reply = some rs → ∀ ev ∈ rs, Decodable py ev

section Answered

variable {py : Builtins} {ratio : List String → List String → ℚ}
  {cfg : TeacherConfig} {uid : String} {items : List TeacherItem}
  {reply : Reply}

theorem isValid_eq_false_of_validQuestions (h : validQuestions items = [])
    {item : TeacherItem} (hmem : item ∈ items) : item.isValid = false := by
  simp only [validQuestions, List.map_eq_nil_iff, List.filter_eq_nil_iff,
    Bool.not_eq_true] at h
  exact h item hmem

/-- A request for a group is made and answered in the right form, or there is
nothing to ask; otherwise the evaluation fails as a whole. -/
theorem evaluations_cases (cfg : TeacherConfig) (items : List TeacherItem)
    (reply : Reply) :
    (∃ exc, evaluations cfg items reply = .error exc ∧
      sentEvaluations items reply = none) ∨
    (∃ rs, evaluations cfg items reply = .ok rs ∧
      rs.length = (validQuestions items).length ∧
      (rs = [] ∨ sentEvaluations items reply = some rs)) := by
  unfold evaluations
  split_ifs with hnone
  · exact Or.inr ⟨[], rfl, by rw [hnone]; rfl, Or.inl rfl⟩
  · cases h : evaluateQuestions cfg.studentEvalUrl reply
        (validQuestions items) with
    | error exc =>
        refine Or.inl ⟨exc, rfl, ?_⟩
        rw [Option.eq_none_iff_forall_ne_some]
        intro rs hrs
        have hok : evaluateQuestions cfg.studentEvalUrl reply
            (validQuestions items) = .ok rs :=
          evaluateQuestions_eq_ok_iff.mpr hrs
        rw [h] at hok
        cases hok
    | ok rs =>
        have hsent := evaluateQuestions_eq_ok_iff.mp h
        refine Or.inr ⟨rs, rfl, ?_, Or.inr hsent⟩
        exact length_sentEvaluations hsent

/-- A failure of the exchange answers every item with the zero result. -/
theorem finalizeTeacherGroup_of_error {exc : String}
    (h : evaluations cfg items reply = .error exc) :
    finalizeTeacherGroup py ratio cfg uid items reply =
      (items.map fun item =>
        (item.future, zero uid item item.formatOk exc), none) := by
  simp [finalizeTeacherGroup, h, Except.bind]

/-- After the exchange the loop runs over the attached evaluations. -/
theorem finalizeTeacherGroup_of_ok {rs es : List Json}
    (h : evaluations cfg items reply = .ok rs)
    (hes : perItemEval items rs = .ok es) :
    finalizeTeacherGroup py ratio cfg uid items reply =
      itemScores py ratio cfg uid items 0 items es := by
  simp [finalizeTeacherGroup, h, hes, Except.bind]

theorem ownEvaluation_of_sent {rs : List Json}
    (hsent : sentEvaluations items reply = some rs) {i : ℕ}
    {item : TeacherItem} (hitem : items[i]? = some item) :
    ownEvaluation items reply i =
      if item.isValid then rs[validBefore items i]? else none := by
  simp [ownEvaluation, hitem, hsent]

theorem ownEvaluation_of_not_sent
    (hsent : sentEvaluations items reply = none) (i : ℕ) :
    ownEvaluation items reply i = none := by
  simp [ownEvaluation, hsent]

theorem ownEvaluation_of_invalid {i : ℕ} {item : TeacherItem}
    (hitem : items[i]? = some item) (hv : item.isValid = false) :
    ownEvaluation items reply i = none := by
  simp [ownEvaluation, hitem, hv]

theorem ownResult_of_itemScore {i : ℕ} {item : TeacherItem} {r : RewardResult}
    (h : itemScore py ratio cfg uid items i item
      ((ownEvaluation items reply i).getD .null) = .ok r) :
    OwnResult py ratio cfg uid items reply i item r := by
  unfold OwnResult
  split
  · next hown =>
      rw [hown] at h
      exact ⟨false, _, (Except.ok.inj h).symm⟩
  · next hown =>
      rw [hown] at h
      exact ⟨false, _, (Except.ok.inj h).symm⟩
  · next ev hnull hown =>
      rw [hown, Option.getD_some] at h
      exact itemScore_decoded hnull h

/-- The finalisation of a group ends without an exception if and only if every
evaluation sent can be decoded. -/
theorem finalizeTeacherGroup_ends_iff :
    (finalizeTeacherGroup py ratio cfg uid items reply).2 = none ↔
      AllDecodable py items reply := by
  rcases evaluations_cases cfg items reply with
    ⟨exc, herr, hsent⟩ | ⟨rs, hok, hlen, hrs⟩
  · rw [finalizeTeacherGroup_of_error herr]
    simp [AllDecodable, hsent]
  · obtain ⟨es, hes, hl, hsub, hsup, -⟩ := perItemEval_spec hlen
    rw [finalizeTeacherGroup_of_ok hok hes, itemScores_ends_iff hl]
    constructor
    · intro hall rs' hsent ev hev
      rcases hrs with rfl | hsent'
      · have hlen' := length_sentEvaluations hsent
        rw [← hlen, List.length_nil, List.length_eq_zero_iff] at hlen'
        rw [hlen'] at hev
        cases hev
      · obtain rfl : rs = rs' := Option.some.inj (hsent'.symm.trans hsent)
        exact hall ev (hsup ev hev)
    · intro hall ev hev
      rcases hsub ev hev with rfl | hmem
      · trivial
      · rcases hrs with rfl | hsent
        · cases hmem
        · exact hall rs hsent ev hmem

/-- The result a finalisation that ends computes for item `i`. -/
theorem exists_ownResult
    (hend : (finalizeTeacherGroup py ratio cfg uid items reply).2 = none)
    {i : ℕ} {item : TeacherItem} (hitem : items[i]? = some item) :
    ∃ r, (item.future, r) ∈
        (finalizeTeacherGroup py ratio cfg uid items reply).1 ∧
      OwnResult py ratio cfg uid items reply i item r := by
  rcases evaluations_cases cfg items reply with
    ⟨exc, herr, hsent⟩ | ⟨rs, hok, hlen, hrs⟩
  · rw [finalizeTeacherGroup_of_error herr]
    refine ⟨_, List.mem_map.mpr ⟨item, List.mem_of_getElem? hitem, rfl⟩, ?_⟩
    unfold OwnResult
    rw [ownEvaluation_of_not_sent hsent]
    exact ⟨_, _, rfl⟩
  · obtain ⟨es, hes, hl, -, -, hget⟩ := perItemEval_spec hlen
    rw [finalizeTeacherGroup_of_ok hok hes] at hend ⊢
    obtain ⟨r, hr, hmem⟩ := (itemScores_results hl hend).2 i item _ hitem
      (hget i item hitem)
    refine ⟨r, hmem, ownResult_of_itemScore ?_⟩
    rw [Nat.zero_add] at hr
    rw [← hr]
    congr 1
    by_cases hv : item.isValid = true
    · rcases hrs with rfl | hsent
      · have hnone := isValid_eq_false_of_validQuestions
          (List.length_eq_zero_iff.mp hlen.symm) (List.mem_of_getElem? hitem)
        rw [hv] at hnone
        cases hnone
      · rw [ownEvaluation_of_sent hsent hitem, if_pos hv, if_pos hv]
    · rw [if_neg hv, ownEvaluation_of_invalid hitem (by simpa using hv)]
      rfl

/-- The futures of a finalisation that ends are those of its items. -/
theorem map_fst_finalizeTeacherGroup
    (hend : (finalizeTeacherGroup py ratio cfg uid items reply).2 = none) :
    (finalizeTeacherGroup py ratio cfg uid items reply).1.map Prod.fst =
      items.map (·.future) := by
  rcases evaluations_cases cfg items reply with
    ⟨exc, herr, -⟩ | ⟨rs, hok, hlen, -⟩
  · rw [finalizeTeacherGroup_of_error herr]
    simp [Function.comp_def]
  · obtain ⟨es, hes, hl, -⟩ := perItemEval_spec hlen
    rw [finalizeTeacherGroup_of_ok hok hes] at hend ⊢
    exact (itemScores_results hl hend).1

/-- A finalisation answers every item of its group exactly when the endpoint
sends nothing that cannot be decoded. -/
theorem answered_iff_decodable (hnd : (items.map (·.future)).Nodup)
    (l : Log RewardResult) :
    Answered py ratio cfg uid items reply l ↔ AllDecodable py items reply := by
  have hends : (finalizeTeacherGroup py ratio cfg uid items reply).2 = none ↔
      AllDecodable py items reply := finalizeTeacherGroup_ends_iff
  rw [← hends]
  refine ⟨Answered.ends, fun hend => ⟨hend, ?_, ?_⟩⟩
  · intro i item hitem hnot
    obtain ⟨r, hmem, hown⟩ := exists_ownResult hend hitem
    have hfst := map_fst_finalizeTeacherGroup hend
    exact ⟨r, mem_setResults_of_nodup (hfst ▸ hnd) hmem hnot, hown⟩
  · intro exc herr item hitem hnot
    rw [finalizeTeacherGroup_of_error herr]
    refine ⟨zero uid item item.formatOk exc, mem_setResults_of_nodup ?_
      (List.mem_map.mpr ⟨item, hitem, rfl⟩) hnot, rfl⟩
    simpa [Function.comp_def] using hnd

end Answered

/-! ## A group that is not answered -/

def exampleTeacherConfig : TeacherConfig where
  groupWaitMs := 1000
  resultTimeoutS := 300
  studentEvalUrl := "http://127.0.0.1:8001"
  studentEvalTimeoutS := 240
  ttsrLambda := 1
  ttsrTau := 3 / 4
  expectedGroupSize := 2
  expectedGroupSize_pos := by decide
  studentEvalUrl_ne := by decide

/-- Two valid rollouts of one group. -/
def exampleGroup : List TeacherItem :=
  [⟨"1 + 1 = ?", "2 + 2 = ?", true, 0⟩, ⟨"1 + 2 = ?", "2 + 2 = ?", true, 1⟩]

def evaluation (score : Json) : Json :=
  .obj [("pseudo_correctness", score), ("rollout_n", .int 8)]

/-- A reply of the right length whose first score is `null`. -/
def badReply : Reply :=
  .payload (.obj [("results",
    .arr [evaluation .null, evaluation (.float (.fin (1 / 2)))])])

def goodReply : Reply :=
  .payload (.obj [("results",
    .arr [evaluation (.float (.fin 1)), evaluation (.float (.fin (1 / 2)))])])

theorem answered_exampleGroup :
    Answered Builtins.plain (fun _ _ => 0) exampleTeacherConfig "u"
      exampleGroup goodReply [] := by
  apply (answered_iff_decodable (by decide) []).mpr
  intro rs hrs ev hev
  obtain rfl := Option.some.inj hrs
  simp only [List.mem_cons, List.not_mem_nil, or_false] at hev
  rcases hev with rfl | rfl
  · exact ⟨⟨_, rfl⟩, _, rfl⟩
  · exact ⟨⟨_, rfl⟩, _, rfl⟩

/-- Neither rollout of the group is answered, the second one because of the
evaluation of the first. -/
theorem not_answered_exampleGroup :
    (finalizeTeacherGroup Builtins.plain (fun _ _ => 0) exampleTeacherConfig
      "u" exampleGroup badReply) = ([], some .typeError) ∧
    ¬ Answered Builtins.plain (fun _ _ => 0) exampleTeacherConfig "u"
      exampleGroup badReply [] := by
  have hraise : finalizeTeacherGroup Builtins.plain (fun _ _ => 0)
      exampleTeacherConfig "u" exampleGroup badReply =
      ([], some .typeError) := by
    rfl
  refine ⟨hraise, fun h => ?_⟩
  have hend := h.ends
  rw [hraise] at hend
  cases hend

end TTSR.Reward
