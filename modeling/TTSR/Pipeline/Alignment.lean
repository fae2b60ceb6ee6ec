import TTSR.Pipeline.Synthesis
import TTSR.Reward.GroupReward

/-!
# Evaluations and their questions

Both clients of the Student evaluator filter what they ask, and both attach the
reply by position: the reward manager with an iterator that skips the invalid
items, `synthesize` with a strict `zip`. The handler filters once more. All
three select the same questions, so that the request is accepted and every
evaluation ends at the question it is about.
-/

namespace TTSR.Pipeline.Synthesize

open TTSR.Foundation TTSR.Foundation.Text TTSR.Reward TTSR.Evaluator

/-- A reply with these results. -/
def resultsReply (results : List Json) : Reward.Reply :=
  .payload (.obj [("results", .arr results)])

theorem evaluateQuestions_resultsReply (url : String) {questions : List String}
    {results : List Json} (h : results.length = questions.length) :
    evaluateQuestions url (resultsReply results) questions = .ok results := by
  simp [evaluateQuestions, resultsReply, Dict.lookupEntries, h]

/-! ## The reward manager -/

section Items

variable {py : Builtins} {loads : String → Except LoadsError Json}

/-- The iterator ends with the items: the valid ones took the results in turn,
the others none. -/
theorem perItemEval_pairs : ∀ {items : List TeacherItem} {results : List Json},
    results.length = (validQuestions items).length →
    ∃ evals, perItemEval items results = .ok evals ∧
      evals.length = items.length ∧
      ((items.zip evals).filter (·.1.isValid)).map
          (fun p => (p.1.generatedQuestion, p.2)) =
        (validQuestions items).zip results ∧
      ∀ p ∈ items.zip evals, p.1.isValid = false → p.2 = .null
  | [], [], _ => ⟨[], rfl, rfl, rfl, by simp⟩
  | item :: items, results, h => by
      cases hv : item.isValid with
      | true =>
          rw [validQuestions_cons_of_valid hv] at h ⊢
          match results, h with
          | result :: results, h =>
              have hrest : results.length = (validQuestions items).length :=
                Nat.succ.inj h
              obtain ⟨evals, hevals, hlen, hpairs, hnull⟩ :=
                perItemEval_pairs hrest
              refine ⟨result :: evals, ?_, by simp [hlen], ?_, ?_⟩
              · simp [perItemEval, hv, hevals, Except.map]
              · simp [hv, hpairs]
              · rintro p hp
                rcases List.mem_cons.mp hp with rfl | hp
                · intro hfalse
                  rw [hv] at hfalse
                  cases hfalse
                · exact hnull p hp
      | false =>
          rw [validQuestions_cons_of_invalid hv] at h ⊢
          obtain ⟨evals, hevals, hlen, hpairs, hnull⟩ := perItemEval_pairs h
          refine ⟨.null :: evals, ?_, by simp [hlen], ?_, ?_⟩
          · simp [perItemEval, hv, hevals, Except.map]
          · simp [hv, hpairs]
          · rintro p hp
            rcases List.mem_cons.mp hp with rfl | hp
            · intro _
              rfl
            · exact hnull p hp

/-- The questions of extracted items are not blank to the handler. -/
theorem strip_validQuestions {items : List TeacherItem}
    (h : ∀ item ∈ items, FromExtractor py loads item) {q : String}
    (hq : q ∈ validQuestions items) : strip q ≠ "" := by
  obtain ⟨item, hitem, rfl⟩ := List.mem_map.mp hq
  obtain ⟨hmem, hvalid⟩ := List.mem_filter.mp hitem
  exact (h item hmem).isValid_iff.mp hvalid

end Items

/-! ## Synthesis -/

section Rows

variable {py : Builtins} {loads : String → Except LoadsError Json}

/-- The loop makes rows without an evaluation. -/
theorem parseRows_parsed : ∀ {failed : List FailedInstance}
    {outputs : List (List String)} {rows : List Row},
    parseRows py loads failed outputs = .ok rows →
    ∀ row ∈ rows, row.studentEvaluation = none
  | [], _, rows, h => by
      obtain rfl := Except.ok.inj h
      simp
  | _ :: _, [], rows, h => by
      obtain rfl := Except.ok.inj h
      simp
  | src :: failed, texts :: outputs, rows, h => by
      obtain ⟨q, rest, -, hrest, rfl⟩ := parseRows_cons_eq_ok_iff.mp h
      exact List.forall_mem_cons.mpr ⟨rfl, parseRows_parsed hrest⟩

/-- An invalid row is left without an evaluation. -/
theorem studentEvaluation_of_invalid {failed : List FailedInstance}
    {outputs : List (List String)} {rows rows' : List Row}
    (hrows : parseRows py loads failed outputs = .ok rows)
    (h : (rows'.filter fun row => !row.isValid) =
      rows.filter fun row => !row.isValid) {row : Row} (hrow : row ∈ rows')
    (hv : row.isValid = false) : row.studentEvaluation = none := by
  have hmem : row ∈ rows'.filter fun row => !row.isValid :=
    List.mem_filter.mpr ⟨hrow, by simp [hv]⟩
  rw [h] at hmem
  exact parseRows_parsed hrows row (List.mem_of_mem_filter hmem)

end Rows

/-- **Evaluations stay attached to their own questions**, in a Teacher group and
in the rows of a synthesis. -/
theorem evaluations_attached (py : Builtins)
    (loads : String → Except LoadsError Json) (url : String) :
    (∀ (cfg : TeacherConfig) (items : List TeacherItem),
      (∀ item ∈ items, FromExtractor py loads item) →
      (∃ item ∈ items, item.isValid = true) →
      doPost (evaluateRequest (validQuestions items)) =
          .ok (validQuestions items) ∧
        ∀ results : List Json,
          results.length = (validQuestions items).length →
          ∃ evals, (evaluations cfg items (resultsReply results)).bind
              (perItemEval items) = .ok evals ∧
            evals.length = items.length ∧
            ((items.zip evals).filter (·.1.isValid)).map
                (fun p => (p.1.generatedQuestion, p.2)) =
              (validQuestions items).zip results ∧
            ∀ p ∈ items.zip evals, p.1.isValid = false → p.2 = .null) ∧
    (∀ (failed : List FailedInstance) (outputs : List (List String))
        (rows : List Row), parseRows py loads failed outputs = .ok rows →
      (∃ row ∈ rows, row.isValid = true) →
      doPost (evaluateRequest (questionsOfRows rows)) =
          .ok (questionsOfRows rows) ∧
        ∀ results : List Json,
          results.length = (questionsOfRows rows).length →
          evaluateQuestions url (resultsReply results) (questionsOfRows rows) =
              .ok results ∧
            ∃ rows', attach rows results = .ok rows' ∧
              rows'.map Row.parsed = rows.map Row.parsed ∧
              (rows'.filter (·.isValid)).map
                  (fun row => (row.question, row.studentEvaluation)) =
                (questionsOfRows rows).zip (results.map some) ∧
              ∀ row ∈ rows', row.isValid = false →
                row.studentEvaluation = none) := by
  constructor
  · intro cfg items hitems hvalid
    obtain ⟨item, hmem, hv⟩ := hvalid
    have hne : validQuestions items ≠ [] := by
      intro hempty
      have := isValid_eq_false_of_validQuestions hempty hmem
      rw [hv] at this
      cases this
    refine ⟨doPost_evaluateRequest hne fun q hq =>
      strip_validQuestions hitems hq, ?_⟩
    intro results hlen
    obtain ⟨evals, hevals, hrest⟩ := perItemEval_pairs hlen
    refine ⟨evals, ?_, hrest⟩
    rw [evaluations, if_neg hne, evaluateQuestions_resultsReply _ hlen]
    exact hevals
  · intro failed outputs rows hrows hvalid
    obtain ⟨row, hmem, hv⟩ := hvalid
    have hne : questionsOfRows rows ≠ [] := List.ne_nil_of_mem
      (List.mem_map.mpr ⟨row, List.mem_filter.mpr ⟨hmem, hv⟩, rfl⟩)
    refine ⟨doPost_evaluateRequest hne fun q hq => strip_question_ne hq, ?_⟩
    intro results hlen
    refine ⟨evaluateQuestions_resultsReply url hlen, ?_⟩
    have hlen' : results.length = (rows.filter (·.isValid)).length := by
      rw [hlen, questionsOfRows, List.length_map]
    obtain ⟨rows', hattach, hparsed, hzip, hinvalid⟩ := attach_spec hlen'
    exact ⟨rows', hattach, hparsed, hzip, fun row hrow hv =>
      studentEvaluation_of_invalid hrows hinvalid hrow hv⟩

/-- One output with a question, one without. -/
def mixedOutputs : List (List String) :=
  [["<question>Is 87 prime?</question>"], ["I cannot think of one."]]

/-- The rows the loop makes of them. -/
theorem parseRows_mixedOutputs :
    ∃ rows, parseRows Builtins.plain (fun _ => .error .jsonDecodeError)
        exampleInstances mixedOutputs = .ok rows ∧
      rows.map Row.isValid = [true, false] ∧
      questionsOfRows rows = ["Is 87 prime?"] :=
  ⟨_, rfl, by decide +kernel, by decide +kernel⟩

/-- A group and a synthesis of two, of which one item and one row are valid. -/
theorem evaluations_attached_mixed :
    (∃ evals, (evaluations exampleTeacherConfig mixedGroup
        (resultsReply [evaluation (.float (.fin (1 / 2)))])).bind
          (perItemEval mixedGroup) = .ok evals ∧
      evals.length = 2) ∧
    ∃ rows rows', parseRows Builtins.plain (fun _ => .error .jsonDecodeError)
        exampleInstances mixedOutputs = .ok rows ∧
      attach rows [evaluation (.float (.fin (1 / 2)))] = .ok rows' ∧
      rows'.length = 2 ∧
      (rows'.filter (·.isValid)).map
          (fun row => (row.question, row.studentEvaluation)) =
        [("Is 87 prime?", some (evaluation (.float (.fin (1 / 2)))))] := by
  obtain ⟨hitems, hrows⟩ := evaluations_attached Builtins.plain
    (fun _ => .error .jsonDecodeError) "http://127.0.0.1:8877"
  constructor
  · obtain ⟨-, hreply⟩ := hitems exampleTeacherConfig mixedGroup
      fromExtractor_mixedGroup ⟨_, List.mem_cons_self, rfl⟩
    obtain ⟨evals, hevals, hlen, -⟩ :=
      hreply [evaluation (.float (.fin (1 / 2)))] rfl
    exact ⟨evals, hevals, hlen⟩
  · obtain ⟨rows, hparse, hvalid, hquestions⟩ := parseRows_mixedOutputs
    have hsome : ∃ row ∈ rows, row.isValid = true := by
      apply List.mem_map.mp
      rw [hvalid]
      exact List.mem_cons_self
    obtain ⟨-, hreply⟩ := hrows exampleInstances mixedOutputs rows hparse hsome
    rw [hquestions] at hreply
    obtain ⟨-, rows', hattach, hparsed, hzip, -⟩ :=
      hreply [evaluation (.float (.fin (1 / 2)))] rfl
    have hlength : rows'.length = rows.length := by
      simpa using congrArg List.length hparsed
    have htwo : rows.length = 2 := by
      simpa using congrArg List.length hvalid
    exact ⟨rows, rows', hparse, hattach, hlength.trans htwo, hzip⟩

end TTSR.Pipeline.Synthesize
