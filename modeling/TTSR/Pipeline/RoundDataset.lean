import TTSR.Foundation.FirstOccurrence
import TTSR.Foundation.Value
import TTSR.Prompts

/-!
# Training sets

The rows a training set is made of, and the two programs that make them:
`prepare_dataset`, which writes the test questions, and `build_round_dataset`,
which renders them and the variants for the next round.

A parquet file comes back from `read_parquet(..).to_dict(orient="records")` as
dictionaries, in which a list column is an array of the numeric library and not
a list (`Cell`).
-/

namespace TTSR.Pipeline

open TTSR.Foundation TTSR.Foundation.Text TTSR.Foundation.FirstOccurrence

/-- A message of a prompt. -/
structure Message where
  role : String
  content : String
deriving DecidableEq

/-- A row of a training set. -/
structure VerlRow where
  dataSource : String
  prompt : List Message
  ability : String
  style : String
  groundTruth : String
  extraInfo : List (String × Json)

/-- `extra_info.raw_question`. -/
def VerlRow.rawQuestion (row : VerlRow) : Option String :=
  match Dict.lookupEntries "raw_question" row.extraInfo with
  | some (.str question) => some question
  | _ => none

/-- `extra_info.index`. -/
def VerlRow.index (row : VerlRow) : Option ℤ :=
  match Dict.lookupEntries "index" row.extraInfo with
  | some (.int idx) => some idx
  | _ => none

/-! ## `prepare_dataset` -/

/-- `to_verl_row`. -/
def toVerlRow (question answer dataSource split : String) (idx : ℕ)
    (instruction : String) : VerlRow where
  dataSource
  prompt := [⟨"user", strip (question ++ "\n\n" ++ instruction)⟩]
  ability := "math"
  style := "rule"
  groundTruth := answer
  extraInfo := [("split", .str split), ("index", .int idx),
    ("raw_question", .str question), ("raw_answer", .str answer)]

/-- A row as `prepare_dataset` writes it: its split and index are rewritten, the
rest is what `to_verl_row` made. -/
def Prepared (row : VerlRow) : Prop :=
  ∃ question answer dataSource split idx instruction,
    row = toVerlRow question answer dataSource split idx instruction

/-! ## `build_round_dataset` -/

/-- A value of a row that was read from a parquet file. -/
inductive Cell where
  | value (j : Json)
  | ndarray (xs : List Json)

def Message.toJson (m : Message) : Json :=
  .obj [("role", .str m.role), ("content", .str m.content)]

/-- A row that was written, as `_load_parquet_rows` reads it. -/
def VerlRow.read (row : VerlRow) : List (String × Cell) :=
  [("data_source", .value (.str row.dataSource)),
   ("prompt", .ndarray (row.prompt.map (·.toJson))),
   ("ability", .value (.str row.ability)),
   ("reward_model", .value (.obj [("style", .str row.style),
     ("ground_truth", .str row.groundTruth)])),
   ("extra_info", .value (.obj row.extraInfo))]

/-- `last["content"]`, if `prompt` is a list that ends in a dictionary with a
text for it. -/
def lastContent : Option Cell → Option String
  | some (.value (.arr prompt)) => match prompt.getLast? with
      | some (.obj last) => match Dict.lookupEntries "content" last with
          | some (.str content) => some content
          | _ => none
      | _ => none
  | _ => none

/-- `_extract_question_from_row`. -/
def extractQuestionFromRow (py : Builtins) (row : List (String × Cell)) :
    String :=
  match lastContent (Dict.lookupEntries "prompt" row) with
  | some content => content
  | none =>
      match (Dict.lookupEntries "extra_info" row).getD (.value (.obj [])) with
      | .value (.obj extra) =>
          ((Dict.lookupEntries "raw_question" extra).getD (.str "")).toStr py
      | _ => ""

/-- `_as_prompt_row`. -/
def asPromptRow (question strategyNote source : String) (idx : ℕ)
    (isSynthetic : Bool) : VerlRow where
  dataSource := source
  prompt := [⟨"user", studentPrompt question strategyNote⟩]
  ability := "math"
  style := "rule"
  groundTruth := ""
  extraInfo := [("index", .int idx), ("raw_question", .str question),
    ("is_synthetic", .bool isSynthetic)]

/-- The rows of the test questions. -/
def testRows (py : Builtins) (strategyNote : String)
    (baseRows : List (List (String × Cell))) : List VerlRow :=
  baseRows.zipIdx.filterMap fun p =>
    let question := strip (extractQuestionFromRow py p.1)
    if question = "" then none
    else some (asPromptRow question strategyNote "ttsr_test" p.2 false)

/-- `str(row.get("question", ""))`. -/
def variantQuestion (py : Builtins) (row : List (String × Json)) : String :=
  ((Dict.lookupEntries "question" row).getD (.str "")).toStr py

/-- The rows of the variants, numbered behind the `offset` test rows. -/
def variantRows (py : Builtins) (strategyNote : String) (offset : ℕ)
    (variants : List (List (String × Json))) : List VerlRow :=
  (variants.filter fun row => strip (variantQuestion py row) ≠ "").zipIdx.map fun p =>
    asPromptRow (strip (variantQuestion py p.1)) strategyNote "ttsr_variant"
      (offset + p.2) true

/-- The first row of every question that is not in `seen`. -/
def dedupFrom (seen : List (Option String)) : List VerlRow → List VerlRow
  | [] => []
  | row :: rows =>
      if row.rawQuestion ∈ seen then dedupFrom seen rows
      else row :: dedupFrom (row.rawQuestion :: seen) rows

/-- `build_round_dataset.main`. The shuffle is a parameter. -/
def buildRoundDataset (py : Builtins) (shuffle : List VerlRow → List VerlRow)
    (baseRows : List (List (String × Cell)))
    (variants : List (List (String × Json))) (strategyNote : String) :
    List VerlRow :=
  let rows := testRows py strategyNote baseRows
  shuffle (dedupFrom []
    (rows ++ variantRows py strategyNote rows.length variants))

/-! ## What the rows are rendered with -/

/-- The prompt of the row is the Student prompt of its question under the
note. -/
def RenderedWith (note : String) (row : VerlRow) : Prop :=
  ∃ question, row.rawQuestion = some question ∧
    row.prompt = [⟨"user", studentPrompt question note⟩]

theorem renderedWith_asPromptRow (question note source : String) (idx : ℕ)
    (isSynthetic : Bool) :
    RenderedWith note (asPromptRow question note source idx isSynthetic) :=
  ⟨question, rfl, rfl⟩

theorem dedupFrom_eq_firstBy (seen : List (Option String))
    (rows : List VerlRow) :
    dedupFrom seen rows = firstBy VerlRow.rawQuestion seen rows := by
  induction rows generalizing seen with
  | nil => rfl
  | cons row rows ih =>
      rw [dedupFrom, firstBy, ih, ih]
      split_ifs <;> rfl

theorem mem_dedupFrom {seen : List (Option String)} {rows : List VerlRow}
    {row : VerlRow} (h : row ∈ dedupFrom seen rows) : row ∈ rows := by
  rw [dedupFrom_eq_firstBy] at h
  exact (firstBy_sublist seen rows).subset h

/-- All rows of a round's training set are rendered with the note it was built
with. -/
theorem renderedWith_of_mem {py : Builtins}
    {shuffle : List VerlRow → List VerlRow}
    (hshuffle : ∀ rows, (shuffle rows).Perm rows)
    {baseRows : List (List (String × Cell))}
    {variants : List (List (String × Json))} {note : String} {row : VerlRow}
    (h : row ∈ buildRoundDataset py shuffle baseRows variants note) :
    RenderedWith note row := by
  have hmem := mem_dedupFrom ((hshuffle _).mem_iff.mp h)
  rcases List.mem_append.mp hmem with htest | hvariant
  · obtain ⟨p, -, hp⟩ := List.mem_filterMap.mp htest
    dsimp only at hp
    split_ifs at hp
    obtain rfl := Option.some.inj hp
    exact renderedWith_asPromptRow _ _ _ _ _
  · obtain ⟨p, -, rfl⟩ := List.mem_map.mp hvariant
    exact renderedWith_asPromptRow _ _ _ _ _

/-- A prepared row is rendered with no note at all: its prompt is stripped, and
the Student prompt without a note starts with a line break. -/
theorem not_renderedWith_of_prepared {row : VerlRow} (h : Prepared row) :
    ¬ RenderedWith "" row := by
  rintro ⟨question, -, hprompt⟩
  obtain ⟨q, answer, dataSource, split, idx, instruction, rfl⟩ := h
  have hcontent : strip (q ++ "\n\n" ++ instruction) =
      studentPrompt question "" :=
    (Message.mk.inj (List.cons.inj hprompt).1).2
  obtain ⟨cs, hcs⟩ := toList_studentPrompt_empty question
  have hstripped : stripChars ('\n' :: cs) = '\n' :: cs := by
    rw [← hcs, ← hcontent, toList_strip, stripChars_idem]
  exact absurd (isSpace_head_of_stripped hstripped) (by decide)

end TTSR.Pipeline
