import TTSR.Evaluator.Handler
import TTSR.Pipeline.ReflectionJoin
import TTSR.Reward.TeacherReward

/-!
# Synthesis

`synthesize.main` behind its call of `generate`: a question is parsed out of
every Teacher output, the questions that are not blank go to the Student
evaluator in one request, and three files are written when the reply is there.

Nothing is written before, so the run needs a reply. It gets one if and only if
there is something to ask (`synthesize_completes_iff`): the evaluator's handler
refuses an empty list of questions, and the client sends one.
-/

namespace TTSR.Pipeline.Synthesize

open TTSR.Foundation TTSR.Foundation.Text TTSR.Reward TTSR.Evaluator

/-! ## Parsing -/

/-- `_extract_question`. -/
def extractQuestion (text : String) (allowPlain : Bool) : String :=
  let text := strip text
  if text = "" then "" else
  match lastQuestionTag text with
  | some question => question
  | none => if allowPlain then text else ""

/-- `str(obj.get("generated_question", ""))`. -/
def generatedQuestion (py : Builtins) (obj : List (String × Json)) : String :=
  ((Dict.lookupEntries "generated_question" obj).getD (.str "")).toStr py

/-- The question the loop makes of an output. -/
def parseQuestion (py : Builtins) (loads : String → Except LoadsError Json)
    (raw : String) : Except LoadsError String :=
  (tryParseJsonObject loads raw).map fun obj =>
    let q := match obj with
      | some fields =>
          -- an empty object is false
          if fields.isEmpty then ""
          else extractQuestion (generatedQuestion py fields) true
      | none => ""
    if q = "" then extractQuestion raw false else q

/-- One line of `variants.jsonl`. -/
structure Row where
  sourceUid : String
  referenceQuestion : String
  question : String
  isSynthetic : Bool
  teacherRaw : String
  studentEvaluation : Option Json

/-- One line of the debug file. -/
structure DebugRow where
  sourceUid : String
  parsedOk : Bool
  raw : String

/-- `out.outputs[0].text if out.outputs else ""`. -/
def rawText (texts : List String) : String := texts.head?.getD ""

/-- The loop, over `zip(failed, outputs, strict=False)`. -/
def parseRows (py : Builtins) (loads : String → Except LoadsError Json) :
    List FailedInstance → List (List String) → Except LoadsError (List Row)
  | src :: failed, texts :: outputs => do
      let q ← parseQuestion py loads (rawText texts)
      let rows ← parseRows py loads failed outputs
      return {
        sourceUid := src.uid
        referenceQuestion := src.question
        question := q
        isSynthetic := true
        teacherRaw := rawText texts
        studentEvaluation := none } :: rows
  | _, _ => .ok []

/-- A row of `valid_rows`. -/
def Row.isValid (row : Row) : Bool := strip row.question ≠ ""

def Row.debug (row : Row) : DebugRow :=
  ⟨row.sourceUid, row.question ≠ "", row.teacherRaw⟩

/-! ## The request -/

/-- The body of the request of `evaluate_questions`. -/
def requestBody (questions : List String) : Json :=
  .obj [("questions", .arr (questions.map .str))]

/-- The request as the handler reads it. -/
def evaluateRequest (questions : List String) : Request :=
  ⟨"/evaluate", .ok (requestBody questions)⟩

/-- A Student evaluator that is there: it answers the questions its handler
lets through, each with one evaluation. -/
structure Student where
  evaluate : List String → List Json
  length_evaluate : ∀ questions,
    (evaluate questions).length = questions.length

/-- The text of the `HTTPError` with which `urlopen` reports an error status. -/
def httpError : Evaluator.Reply → String
  | .ok _ => "HTTP Error 200: OK"
  | .badRequest _ => "HTTP Error 400: Bad Request"
  | .notFound _ => "HTTP Error 404: Not Found"

/-- What the client sees of the answer to its request. -/
def Student.answer (student : Student) (questions : List String) :
    Reward.Reply :=
  match doPost (evaluateRequest questions) with
  | .error reply => .unavailable (httpError reply)
  | .ok questions =>
      .payload (.obj [("results", .arr (student.evaluate questions))])

/-! ## The program -/

/-- The exceptions that end the program. -/
inductive SynthesisError where
  | loads (exc : LoadsError)
  | unicodeEncodeError
  | runtimeError (exc : String)
  | zip

/-- `zip(valid_rows, evaluations, strict=True)`, which sets the evaluations in
the rows themselves. -/
def attach : List Row → List Json → Except SynthesisError (List Row)
  | [], [] => .ok []
  | [], _ :: _ => .error .zip
  | row :: rows, evaluations =>
      if row.isValid then
        match evaluations with
        | [] => .error .zip
        | ev :: evaluations => (attach rows evaluations).map
            ({ row with studentEvaluation := some ev } :: ·)
      else (attach rows evaluations).map (row :: ·)

/-- The three files. -/
structure Files where
  variants : List Row
  rolloutCache : List Row
  debug : List DebugRow

/-- `synthesize.main` on the outputs of `generate`. Whether a text can be
encoded as UTF-8 is a parameter; only `json.loads` makes one that cannot. -/
def synthesize (py : Builtins) (loads : String → Except LoadsError Json)
    (encodes : String → Bool) (url : String) (student : Student)
    (maxVariants : ℤ) (failed : List FailedInstance)
    (outputs : List (List String)) : Except SynthesisError Files :=
  match parseRows py loads (firstInstances maxVariants failed) outputs with
  | .error exc => .error (.loads exc)
  | .ok rows =>
      let questions := (rows.filter (·.isValid)).map (·.question)
      if ¬ questions.all encodes then .error .unicodeEncodeError else
      match evaluateQuestions url (student.answer questions) questions with
      | .error exc => .error (.runtimeError exc)
      | .ok evaluations => (attach rows evaluations).map fun rows => {
          variants := rows
          rolloutCache := rows.filter (·.isValid)
          debug := rows.map (·.debug) }

/-! ## Rows -/

section Rows

variable {py : Builtins} {loads : String → Except LoadsError Json}

/-- A row as the loop made it. -/
def Row.parsed (row : Row) : Row := { row with studentEvaluation := none }

@[simp] theorem Row.isValid_parsed (row : Row) :
    row.parsed.isValid = row.isValid := rfl

theorem exists_parseQuestion_iff (raw : String) :
    (∃ q, parseQuestion py loads raw = .ok q) ↔
      ∃ obj, tryParseJsonObject loads raw = .ok obj := by
  rw [parseQuestion]
  cases tryParseJsonObject loads raw <;> simp [Except.map]

/-- One round of the loop. -/
theorem parseRows_cons_eq_ok_iff {src : FailedInstance}
    {failed : List FailedInstance} {texts : List String}
    {outputs : List (List String)} {rows : List Row} :
    parseRows py loads (src :: failed) (texts :: outputs) = .ok rows ↔
      ∃ q rest, parseQuestion py loads (rawText texts) = .ok q ∧
        parseRows py loads failed outputs = .ok rest ∧
        rows = {
          sourceUid := src.uid
          referenceQuestion := src.question
          question := q
          isSynthetic := true
          teacherRaw := rawText texts
          studentEvaluation := none } :: rest := by
  rw [parseRows]
  constructor
  · intro h
    obtain ⟨q, hq, h⟩ := bind_eq_ok_iff.mp h
    obtain ⟨rest, hrest, h⟩ := bind_eq_ok_iff.mp h
    exact ⟨q, rest, hq, hrest, (Except.ok.inj h).symm⟩
  · rintro ⟨q, rest, hq, hrest, rfl⟩
    exact bind_eq_ok_iff.mpr ⟨q, hq, bind_eq_ok_iff.mpr ⟨rest, hrest, rfl⟩⟩

/-- Every instance with an output gets a row, if every output can be read. -/
theorem exists_parseRows_iff : ∀ {failed : List FailedInstance}
    {outputs : List (List String)}, outputs.length = failed.length →
    ((∃ rows, parseRows py loads failed outputs = .ok rows) ↔
      ∀ texts ∈ outputs,
        ∃ q, parseQuestion py loads (rawText texts) = .ok q)
  | [], [], _ => by simp [parseRows]
  | src :: failed, texts :: outputs, h => by
      have hlen : outputs.length = failed.length := Nat.succ.inj h
      have ih := exists_parseRows_iff hlen
      rw [List.forall_mem_cons, ← ih]
      constructor
      · rintro ⟨rows, hrows⟩
        obtain ⟨q, rest, hq, hrest, -⟩ := parseRows_cons_eq_ok_iff.mp hrows
        exact ⟨⟨q, hq⟩, rest, hrest⟩
      · rintro ⟨⟨q, hq⟩, rest, hrest⟩
        exact ⟨_, parseRows_cons_eq_ok_iff.mpr ⟨q, rest, hq, hrest, rfl⟩⟩

/-- The row of an instance. -/
theorem parseRows_spec : ∀ {failed : List FailedInstance}
    {outputs : List (List String)} {rows : List Row},
    outputs.length = failed.length →
    parseRows py loads failed outputs = .ok rows →
    rows.map (fun row => (row.sourceUid, row.referenceQuestion)) =
        failed.map (fun src => (src.uid, src.question)) ∧
      rows.map (·.teacherRaw) = outputs.map rawText ∧
      rows.map (fun row => Except.ok row.question) =
        outputs.map (fun texts => parseQuestion py loads (rawText texts))
  | [], [], rows, _, h => by
      obtain rfl := Except.ok.inj h
      exact ⟨rfl, rfl, rfl⟩
  | src :: failed, texts :: outputs, rows, hlen, h => by
      obtain ⟨q, rest, hq, hrest, rfl⟩ := parseRows_cons_eq_ok_iff.mp h
      obtain ⟨huid, hraw, hquestion⟩ := parseRows_spec (Nat.succ.inj hlen) hrest
      refine ⟨?_, ?_, ?_⟩
      · rw [List.map_cons, List.map_cons, huid]
      · rw [List.map_cons, List.map_cons, hraw]
      · rw [List.map_cons, List.map_cons, hquestion, hq]

/-- A question that was parsed is that of a row. -/
theorem exists_row_iff {failed : List FailedInstance}
    {outputs : List (List String)} {rows : List Row}
    (hlen : outputs.length = failed.length)
    (h : parseRows py loads failed outputs = .ok rows) (q : String) :
    (∃ row ∈ rows, row.question = q) ↔
      ∃ texts ∈ outputs, parseQuestion py loads (rawText texts) = .ok q := by
  obtain ⟨-, -, hquestion⟩ := parseRows_spec hlen h
  have hmem : (Except.ok q : Except LoadsError String) ∈
        rows.map (fun row => Except.ok row.question) ↔
      .ok q ∈ outputs.map
        (fun texts => parseQuestion py loads (rawText texts)) := by
    rw [hquestion]
  simpa using hmem

/-- The valid rows take the evaluations in turn; nothing else changes. -/
theorem attach_spec : ∀ {rows : List Row} {evs : List Json},
    evs.length = (rows.filter (·.isValid)).length →
    ∃ rows', attach rows evs = .ok rows' ∧
      rows'.map Row.parsed = rows.map Row.parsed ∧
      (rows'.filter (·.isValid)).map
          (fun row => (row.question, row.studentEvaluation)) =
        ((rows.filter (·.isValid)).map (·.question)).zip (evs.map some) ∧
      (rows'.filter (fun row => !row.isValid)) =
        rows.filter (fun row => !row.isValid)
  | [], [], _ => ⟨[], rfl, rfl, rfl, rfl⟩
  | row :: rows, evs, h => by
      cases hv : row.isValid with
      | true =>
          match evs, h with
          | [], h => simp [hv] at h
          | ev :: evs, h =>
              have hlen : evs.length = (rows.filter (·.isValid)).length := by
                simpa [hv] using h
              obtain ⟨rows', hattach, hparsed, hzip, hinvalid⟩ :=
                attach_spec hlen
              refine ⟨{ row with studentEvaluation := some ev } :: rows',
                ?_, ?_, ?_, ?_⟩
              · simp [attach, hv, hattach, Except.map]
              · rw [List.map_cons, List.map_cons, hparsed]
                rfl
              · have hv' : Row.isValid
                    { row with studentEvaluation := some ev } = true := hv
                simp [hv, hv', hzip]
              · have hv' : Row.isValid
                    { row with studentEvaluation := some ev } = true := hv
                simp [hv, hv', hinvalid]
      | false =>
          have hlen : evs.length = (rows.filter (·.isValid)).length := by
            simpa [hv] using h
          obtain ⟨rows', hattach, hparsed, hzip, hinvalid⟩ := attach_spec hlen
          refine ⟨row :: rows', ?_, ?_, ?_, ?_⟩
          · simp [attach, hv, hattach, Except.map]
          · rw [List.map_cons, List.map_cons, hparsed]
          · simp [hv, hzip]
          · simp [hv, hinvalid]

end Rows

/-! ## The request and the handler -/

theorem mapM_asQuestion {questions : List String}
    (h : ∀ q ∈ questions, strip q ≠ "") :
    (questions.map Json.str).mapM asQuestion = some questions := by
  induction questions with
  | nil => rfl
  | cons q questions ih =>
      obtain ⟨hq, hrest⟩ := List.forall_mem_cons.mp h
      rw [List.map_cons, List.mapM_cons, asQuestion, if_neg hq, ih hrest]
      rfl

/-- The handler lets a request through that asks something. -/
theorem doPost_evaluateRequest {questions : List String} (hne : questions ≠ [])
    (h : ∀ q ∈ questions, strip q ≠ "") :
    doPost (evaluateRequest questions) = .ok questions := by
  obtain ⟨q, rest, rfl⟩ := List.exists_cons_of_ne_nil hne
  have hquestions : questionsOf (requestBody (q :: rest)) = .ok (q :: rest) := by
    have hget : (requestBody (q :: rest)).get "questions" (.arr []) =
        .ok (.arr ((q :: rest).map .str)) := rfl
    rw [questionsOf, hget]
    dsimp only
    rw [mapM_asQuestion h]
  simp [doPost, evaluateRequest, hquestions]

/-- It refuses one that asks nothing. -/
theorem doPost_evaluateRequest_nil :
    doPost (evaluateRequest []) = .error
      (.badRequest "questions must be a non-empty list of strings") := rfl

/-- The evaluations the client gets: none for an empty request. -/
theorem evaluateQuestions_answer (url : String) (student : Student)
    {questions : List String} (h : ∀ q ∈ questions, strip q ≠ "") :
    evaluateQuestions url (student.answer questions) questions =
      if questions = [] then
        .error ("Student evaluator unavailable at " ++ url ++ ": " ++
          "HTTP Error 400: Bad Request")
      else .ok (student.evaluate questions) := by
  split
  · next hempty =>
      rw [hempty, Student.answer, doPost_evaluateRequest_nil]
      rfl
  · next hne =>
      rw [Student.answer, doPost_evaluateRequest hne h]
      simp [evaluateQuestions, Dict.lookupEntries, student.length_evaluate]

/-! ## Completion -/

/-- The files of a run that came to its end: a row for every instance, in
order, and the valid rows in the cache. -/
structure Complete (failed : List FailedInstance) (outputs : List (List String))
    (files : Files) : Prop where
  instances : files.variants.map
      (fun row => (row.sourceUid, row.referenceQuestion)) =
    failed.map (fun src => (src.uid, src.question))
  raw : files.variants.map (·.teacherRaw) = outputs.map rawText
  cache : files.rolloutCache = files.variants.filter (·.isValid)

section Complete

variable {py : Builtins} {loads : String → Except LoadsError Json}
  {encodes : String → Bool} {url : String} {student : Student}
  {maxVariants : ℤ} {failed : List FailedInstance}
  {outputs : List (List String)}

theorem strip_question_ne {rows : List Row} {q : String}
    (h : q ∈ (rows.filter (·.isValid)).map (·.question)) : strip q ≠ "" := by
  obtain ⟨row, hrow, rfl⟩ := List.mem_map.mp h
  simpa [Row.isValid] using (List.mem_filter.mp hrow).2

/-- The questions of the request. -/
def questionsOfRows (rows : List Row) : List String :=
  (rows.filter (·.isValid)).map (·.question)

/-- What the program needs behind the loop, and what it writes. -/
theorem synthesize_of_rows {rows : List Row} {files : Files}
    (h : parseRows py loads (firstInstances maxVariants failed) outputs =
      .ok rows) :
    synthesize py loads encodes url student maxVariants failed outputs =
        .ok files ↔
      (questionsOfRows rows).all encodes = true ∧ questionsOfRows rows ≠ [] ∧
        ∃ rows', attach rows (student.evaluate (questionsOfRows rows)) =
            .ok rows' ∧
          files = ⟨rows', rows'.filter (·.isValid), rows'.map (·.debug)⟩ := by
  have hnonblank : ∀ q ∈ questionsOfRows rows, strip q ≠ "" :=
    fun q hq => strip_question_ne hq
  have hanswer := evaluateQuestions_answer url student hnonblank
  rw [synthesize, h]
  show (if ¬ (questionsOfRows rows).all encodes = true then _ else
    match evaluateQuestions url (student.answer (questionsOfRows rows))
      (questionsOfRows rows) with | .error _ => _ | .ok _ => _) = _ ↔ _
  rw [hanswer]
  by_cases hencodes : (questionsOfRows rows).all encodes = true
  · rw [if_neg (not_not.mpr hencodes)]
    by_cases hne : questionsOfRows rows = []
    · rw [if_pos hne]
      simp [hne]
    · rw [if_neg hne]
      cases hattach : attach rows (student.evaluate (questionsOfRows rows)) with
      | error exc => simp [Except.map, hattach]
      | ok rows' => simp [Except.map, hattach, hencodes, hne, eq_comm]
  · rw [if_pos hencodes]
    simp [hencodes]

/-- The request asks the questions of the outputs that are not blank. -/
theorem mem_questionsOfRows {rows : List Row} {failed : List FailedInstance}
    (hlen : outputs.length = failed.length)
    (h : parseRows py loads failed outputs = .ok rows) (q : String) :
    q ∈ questionsOfRows rows ↔ (∃ texts ∈ outputs,
      parseQuestion py loads (rawText texts) = .ok q) ∧ strip q ≠ "" := by
  rw [← exists_row_iff hlen h, questionsOfRows, List.mem_map]
  constructor
  · rintro ⟨row, hrow, rfl⟩
    obtain ⟨hmem, hvalid⟩ := List.mem_filter.mp hrow
    exact ⟨⟨row, hmem, rfl⟩, by simpa [Row.isValid] using hvalid⟩
  · rintro ⟨⟨row, hmem, rfl⟩, hvalid⟩
    exact ⟨row, List.mem_filter.mpr ⟨hmem, by simpa [Row.isValid] using hvalid⟩,
      rfl⟩

theorem length_evaluate_rows (student : Student) (rows : List Row) :
    (student.evaluate (questionsOfRows rows)).length =
      (rows.filter (·.isValid)).length := by
  rw [student.length_evaluate, questionsOfRows, List.length_map]

/-- Whatever is written is complete. -/
theorem complete_of_synthesize {files : Files}
    (hlen : outputs.length = (firstInstances maxVariants failed).length)
    (h : synthesize py loads encodes url student maxVariants failed outputs =
      .ok files) :
    Complete (firstInstances maxVariants failed) outputs files := by
  cases hrows : parseRows py loads (firstInstances maxVariants failed)
      outputs with
  | error exc => rw [synthesize, hrows] at h; cases h
  | ok rows =>
      obtain ⟨-, -, rows', hattach, rfl⟩ := (synthesize_of_rows hrows).mp h
      obtain ⟨huid, hraw, -⟩ := parseRows_spec hlen hrows
      obtain ⟨rows'', hattach', hparsed, -⟩ :=
        attach_spec (length_evaluate_rows student rows)
      obtain rfl := Except.ok.inj (hattach.symm.trans hattach')
      refine ⟨?_, ?_, rfl⟩
      · rw [← huid]
        have := congrArg (List.map fun row : Row =>
          (row.sourceUid, row.referenceQuestion)) hparsed
        simpa [Function.comp_def, Row.parsed] using this
      · rw [← hraw]
        have := congrArg (List.map fun row : Row => row.teacherRaw) hparsed
        simpa [Function.comp_def, Row.parsed] using this

/-- **Synthesis runs to its end** exactly if no output makes `json.loads` raise
anything but a decoding error, some output has a question, and every question
can be encoded; and then it writes the complete files. -/
theorem synthesize_completes_iff (py : Builtins)
    (loads : String → Except LoadsError Json) (encodes : String → Bool)
    (url : String) (student : Student) (maxVariants : ℤ)
    (failed : List FailedInstance) (outputs : List (List String))
    (hlen : outputs.length = (firstInstances maxVariants failed).length) :
    (∃ files, synthesize py loads encodes url student maxVariants failed
        outputs = .ok files ∧
      Complete (firstInstances maxVariants failed) outputs files) ↔
    (∀ texts ∈ outputs, ∃ obj,
        tryParseJsonObject loads (rawText texts) = .ok obj) ∧
      (∃ texts ∈ outputs, ∃ q,
        parseQuestion py loads (rawText texts) = .ok q ∧ strip q ≠ "") ∧
      ∀ texts ∈ outputs, ∀ q, parseQuestion py loads (rawText texts) = .ok q →
        strip q ≠ "" → encodes q = true := by
  have hread : (∃ rows, parseRows py loads
        (firstInstances maxVariants failed) outputs = .ok rows) ↔
      ∀ texts ∈ outputs, ∃ obj,
        tryParseJsonObject loads (rawText texts) = .ok obj := by
    rw [exists_parseRows_iff hlen]
    simp only [exists_parseQuestion_iff]
  rw [← hread]
  constructor
  · rintro ⟨files, h, -⟩
    cases hrows : parseRows py loads (firstInstances maxVariants failed)
        outputs with
    | error exc => rw [synthesize, hrows] at h; cases h
    | ok rows =>
        obtain ⟨hencodes, hne, -⟩ := (synthesize_of_rows hrows).mp h
        have hmem := mem_questionsOfRows hlen hrows
        obtain ⟨q, hq⟩ := List.exists_mem_of_ne_nil _ hne
        obtain ⟨⟨texts, htexts, hparse⟩, hstrip⟩ := (hmem q).mp hq
        refine ⟨⟨rows, rfl⟩, ⟨texts, htexts, q, hparse, hstrip⟩, ?_⟩
        intro texts htexts q hparse hstrip
        exact List.all_eq_true.mp hencodes q
          ((hmem q).mpr ⟨⟨texts, htexts, hparse⟩, hstrip⟩)
  · rintro ⟨⟨rows, hrows⟩, ⟨texts, htexts, q, hparse, hstrip⟩, hencodes⟩
    have hmem := mem_questionsOfRows hlen hrows
    obtain ⟨rows', hattach, -⟩ :=
      attach_spec (length_evaluate_rows student rows)
    have hall : (questionsOfRows rows).all encodes = true := by
      refine List.all_eq_true.mpr fun q hq => ?_
      obtain ⟨⟨texts, htexts, hparse⟩, hstrip⟩ := (hmem q).mp hq
      exact hencodes texts htexts q hparse hstrip
    have hne : questionsOfRows rows ≠ [] := List.ne_nil_of_mem
      ((hmem q).mpr ⟨⟨texts, htexts, hparse⟩, hstrip⟩)
    have hok : synthesize py loads encodes url student maxVariants failed
        outputs = .ok ⟨rows', rows'.filter (·.isValid), rows'.map (·.debug)⟩ :=
      (synthesize_of_rows hrows).mpr ⟨hall, hne, rows', hattach, rfl⟩
    exact ⟨_, hok, complete_of_synthesize hlen hok⟩

end Complete

/-! ## Runs -/

/-- An evaluator with one answer. -/
def constantStudent : Student where
  evaluate questions := questions.map fun _ =>
    evaluation (.float (.fin (1 / 2)))
  length_evaluate questions := by simp

def exampleInstances : List FailedInstance :=
  [⟨"u1", "Is 91 prime?", "91 is odd, so yes.", "no", .fin 0, "r/1.jsonl"⟩,
   ⟨"u2", "Is 97 prime?", "It is not.", "yes", .fin 0, "r/1.jsonl"⟩]

/-- One output with a question, one without. -/
theorem synthesize_completes_example :
    ∃ files, synthesize Builtins.plain (fun _ => .error .jsonDecodeError)
        (fun _ => true) "http://127.0.0.1:8877" constantStudent 8
        exampleInstances
        [["<question>Is 87 prime?</question>"], ["I cannot think of one."]] =
          .ok files ∧
      Complete (firstInstances 8 exampleInstances)
        [["<question>Is 87 prime?</question>"], ["I cannot think of one."]]
        files := by
  refine (synthesize_completes_iff _ _ _ _ _ _ _ _ rfl).mpr ⟨?_, ?_, ?_⟩
  · intro texts htexts
    simp only [List.mem_cons, List.not_mem_nil, or_false] at htexts
    rcases htexts with rfl | rfl
    · exact ⟨none, rfl⟩
    · exact ⟨none, rfl⟩
  · exact ⟨_, List.mem_cons_self, "Is 87 prime?", rfl, by decide +kernel⟩
  · exact fun _ _ _ _ _ => rfl

/-- No output has a question: the handler refuses the empty request and the run
ends before a file is written. -/
theorem synthesize_aborts :
    ∃ (failed : List FailedInstance) (outputs : List (List String)),
      failed ≠ [] ∧ outputs.length = failed.length ∧
      synthesize Builtins.plain (fun _ => .error .jsonDecodeError)
          (fun _ => true) "http://127.0.0.1:8877" constantStudent 8 failed
          outputs =
        .error (.runtimeError ("Student evaluator unavailable at " ++
          "http://127.0.0.1:8877" ++ ": " ++ "HTTP Error 400: Bad Request")) :=
  ⟨exampleInstances, [["I cannot think of one."], [""]], by decide, rfl, rfl⟩

end TTSR.Pipeline.Synthesize
