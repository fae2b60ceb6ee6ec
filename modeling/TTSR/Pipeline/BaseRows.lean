import TTSR.Foundation.Columns
import TTSR.Pipeline.RoundUnion

/-!
# Reading the test questions

`_extract_question_from_row` looks for the question in the last message of the
prompt, and in `extra_info.raw_question` if there is no such message. The first
place is guarded by `isinstance(prompt, list)`, and a prompt that comes out of a
parquet file is an array (`lastContent_loadRow`). So it is never looked at, and a
row is dropped whose question stands in its prompt only
(`test_question_kept_iff`). Beside a row that has the raw question such a row
reads `None` for it, and the text of that is taken for the question.
-/

namespace TTSR.Pipeline

open TTSR.Foundation TTSR.Foundation.Text TTSR.Foundation.FirstOccurrence

/-! ## Reading the file -/

/-- What becomes of a value of a record in `read_parquet(..).to_dict("records")`:
a list column is an array. -/
def loadCell : Json → Cell
  | .arr xs => .ndarray xs
  | j => .value j

/-- A row of the file with the rows `base`, as `_load_parquet_rows` reads it. -/
def loadRow (base : List (List (String × Json))) (row : List (String × Json)) :
    List (String × Cell) :=
  (Columns.readStruct (base.map .obj) row).map fun column =>
    (column.1, loadCell column.2)

/-- `_load_parquet_rows`. -/
def loadRows (base : List (List (String × Json))) :
    List (List (String × Cell)) :=
  base.map (loadRow base)

/-- The row as it is stored. -/
def VerlRow.stored (row : VerlRow) : List (String × Json) :=
  [("data_source", .str row.dataSource),
   ("prompt", .arr (row.prompt.map (·.toJson))),
   ("ability", .str row.ability),
   ("reward_model", .obj [("style", .str row.style),
     ("ground_truth", .str row.groundTruth)]),
   ("extra_info", .obj row.extraInfo)]

/-! ## Rows of `prepare_dataset` -/

section Prepared

variable {tests : List VerlRow}

/-- The file of these rows. -/
def storedColumn (tests : List VerlRow) : List Json :=
  tests.map fun row => .obj row.stored

theorem child_storedColumn (key : String) (tests : List VerlRow) :
    Columns.child key (storedColumn tests) =
      tests.filterMap fun row => Dict.lookupEntries key row.stored := by
  have hcolumn : storedColumn tests =
      (tests.map VerlRow.stored).map Json.obj := by
    rw [List.map_map]
    rfl
  rw [Columns.child, hcolumn, Columns.structs_map_obj, List.filterMap_map]
  rfl

/-- A column of structs with the same keys, one for each row. -/
theorem ofKeys_of_rows {key : String} {ks : List String} (hnodup : ks.Nodup)
    (f : VerlRow → List (String × Json))
    (hlookup : ∀ row : VerlRow,
      Dict.lookupEntries key row.stored = some (.obj (f row)))
    (hkeys : ∀ row ∈ tests, (f row).map Prod.fst = ks) {row : VerlRow}
    (hrow : row ∈ tests) :
    Columns.OfKeys ks (Columns.child key (storedColumn tests)) where
  nonempty := by
    rw [child_storedColumn]
    exact List.ne_nil_of_mem (List.mem_filterMap.mpr ⟨row, hrow, hlookup row⟩)
  nodup := hnodup
  struct := by
    intro x hx
    rw [child_storedColumn] at hx
    obtain ⟨row, hrow, hsome⟩ := List.mem_filterMap.mp hx
    rw [hlookup] at hsome
    exact ⟨f row, (Option.some.inj hsome).symm, hkeys row hrow⟩

/-- The messages of all rows have the same keys. -/
theorem ofKeys_messages {row : VerlRow} (hrow : row ∈ tests) {m : Message}
    (hm : m ∈ row.prompt) :
    Columns.OfKeys ["role", "content"]
      (Columns.elements (Columns.child "prompt" (storedColumn tests))) where
  nonempty := by
    rw [child_storedColumn]
    have hmem : m.toJson ∈ Columns.elements
        (tests.filterMap fun row => Dict.lookupEntries "prompt" row.stored) :=
      List.mem_flatMap.mpr ⟨.arr (row.prompt.map (·.toJson)),
        List.mem_filterMap.mpr ⟨row, hrow, rfl⟩, List.mem_map_of_mem hm⟩
    exact List.ne_nil_of_mem hmem
  nodup := by decide
  struct := by
    intro x hx
    rw [child_storedColumn] at hx
    obtain ⟨j, hj, hx⟩ := List.mem_flatMap.mp hx
    obtain ⟨row, -, hsome⟩ := List.mem_filterMap.mp hj
    obtain rfl := Option.some.inj hsome
    obtain ⟨m, -, rfl⟩ := List.mem_map.mp hx
    exact ⟨_, rfl, rfl⟩

theorem readBack_prompt {row : VerlRow} (hrow : row ∈ tests) :
    Columns.readBack (Columns.child "prompt" (storedColumn tests))
        (.arr (row.prompt.map (·.toJson))) =
      .arr (row.prompt.map (·.toJson)) := by
  rw [Columns.readBack_arr, List.map_map]
  congr 1
  apply List.map_congr_left
  intro m hm
  apply (ofKeys_messages hrow hm).readBack_self rfl
  simp

theorem readBack_extraInfo (h : ∀ row ∈ tests, Prepared row) {row : VerlRow}
    (hrow : row ∈ tests) :
    Columns.readBack (Columns.child "extra_info" (storedColumn tests))
        (.obj row.extraInfo) =
      .obj row.extraInfo := by
  have hkeys : ∀ row ∈ tests, row.extraInfo.map Prod.fst =
      ["split", "index", "raw_question", "raw_answer"] := by
    intro row hrow
    obtain ⟨_, _, _, _, _, _, rfl⟩ := h row hrow
    rfl
  have hcolumn : Columns.OfKeys
      ["split", "index", "raw_question", "raw_answer"]
      (Columns.child "extra_info" (storedColumn tests)) :=
    ofKeys_of_rows (by decide) VerlRow.extraInfo (fun _ => rfl) hkeys hrow
  apply hcolumn.readBack_self (hkeys row hrow)
  obtain ⟨_, _, _, _, _, _, rfl⟩ := h row hrow
  simp [toVerlRow]

/-- The rows of `prepare_dataset` share all keys, so they come back as they
are. -/
theorem loadRows_stored (h : ∀ row ∈ tests, Prepared row) :
    loadRows (tests.map (·.stored)) = tests.map (·.read) := by
  have hrow : ∀ row ∈ tests,
      Columns.readStruct (storedColumn tests) row.stored = row.stored := by
    intro row hrow
    have htable : Columns.OfKeys ["data_source", "prompt", "ability",
        "reward_model", "extra_info"] (storedColumn tests) := by
      constructor
      · exact List.ne_nil_of_mem (List.mem_map_of_mem hrow)
      · decide
      · intro x hx
        obtain ⟨other, -, rfl⟩ := List.mem_map.mp hx
        exact ⟨_, rfl, rfl⟩
    have hreward : Columns.OfKeys ["style", "ground_truth"]
        (Columns.child "reward_model" (storedColumn tests)) :=
      ofKeys_of_rows (by decide) (fun row => [("style", .str row.style),
        ("ground_truth", .str row.groundTruth)]) (fun _ => rfl)
        (fun _ _ => rfl) hrow
    apply htable.readStruct_self rfl
    simp only [VerlRow.stored, List.forall_mem_cons, List.not_mem_nil,
      false_implies, implies_true, and_true]
    refine ⟨Columns.readBack_str _ _, readBack_prompt hrow,
      Columns.readBack_str _ _, ?_, readBack_extraInfo h hrow⟩
    apply hreward.readBack_self rfl
    simp
  unfold loadRows
  rw [List.map_map]
  apply List.map_congr_left
  intro row hmem
  rw [Function.comp_apply, loadRow, List.map_map]
  show (Columns.readStruct (storedColumn tests) row.stored).map _ = _
  rw [hrow row hmem]
  rfl

theorem extractQuestionFromRow_read {py : Builtins} {row : VerlRow}
    (h : Prepared row) :
    row.rawQuestion = some (extractQuestionFromRow py row.read) := by
  obtain ⟨_, _, _, _, _, _, rfl⟩ := h
  rfl

/-- The questions found in such a file are its raw questions. -/
theorem mem_baseQuestions_stored {py : Builtins}
    (h : ∀ row ∈ tests, Prepared row) {q : String} :
    q ∈ baseQuestions py (loadRows (tests.map (·.stored))) ↔
      q ≠ "" ∧ ∃ test ∈ tests, test.rawQuestion.map strip = some q := by
  rw [loadRows_stored h, mem_baseQuestions, and_comm]
  apply and_congr_right
  intro _
  rw [baseTexts, List.map_map, List.mem_map]
  constructor
  · rintro ⟨test, htest, rfl⟩
    refine ⟨test, htest, ?_⟩
    rw [extractQuestionFromRow_read (h test htest)]
    rfl
  · rintro ⟨test, htest, hq⟩
    rw [show test.rawQuestion = some (extractQuestionFromRow py test.read) from
      extractQuestionFromRow_read (h test htest)] at hq
    exact ⟨test, htest, Option.some.inj hq⟩

end Prepared

/-! ## Rows with their question in the prompt -/

/-- The prompt of the stored row is a list of messages, and the last one has the
text `content`. -/
def LastMessage (row : List (String × Json)) (content : String) : Prop :=
  ∃ prompt last, Dict.lookupEntries "prompt" row = some (.arr prompt) ∧
    prompt.getLast? = some (.obj last) ∧
    Dict.lookupEntries "content" last = some (.str content)

/-- The `raw_question` of the stored row. -/
def rawQuestionOf (row : List (String × Json)) : Option Json :=
  match Dict.lookupEntries "extra_info" row with
  | some (.obj extra) => Dict.lookupEntries "raw_question" extra
  | _ => none

/-- The `raw_question` that is read for the row: null where only other rows of
the file have one. -/
def rawQuestionRead (base : List (List (String × Json)))
    (row : List (String × Json)) : Option Json :=
  match Dict.lookupEntries "extra_info" (loadRow base row) with
  | some (.value (.obj extra)) => Dict.lookupEntries "raw_question" extra
  | _ => none

/-- The row has a raw question, and that is a text that is not blank. -/
def HasRawQuestion (row : List (String × Json)) : Prop :=
  ∃ text, rawQuestionOf row = some (.str text) ∧ strip text ≠ ""

variable {py : Builtins} {base : List (List (String × Json))}
  {row : List (String × Json)}

/-- The first place is never looked at. -/
theorem lastContent_loadRow :
    lastContent (Dict.lookupEntries "prompt" (loadRow base row)) = none := by
  rw [loadRow, Dict.lookupEntries_map]
  cases Dict.lookupEntries "prompt" (Columns.readStruct (base.map .obj) row) with
  | none => rfl
  | some j => cases j <;> rfl

/-- What is extracted is the text of the raw question that is read. -/
theorem extractQuestionFromRow_loadRow :
    extractQuestionFromRow py (loadRow base row) =
      match rawQuestionRead base row with
      | some raw => raw.toStr py
      | none => "" := by
  rw [extractQuestionFromRow, lastContent_loadRow, rawQuestionRead]
  cases Dict.lookupEntries "extra_info" (loadRow base row) with
  | none => rfl
  | some cell =>
      match cell with
      | .value (.obj extra) =>
          cases hraw : Dict.lookupEntries "raw_question" extra with
          | none => simp [hraw, Json.toStr]
          | some raw => simp [hraw]
      | .value .null | .value (.bool _) | .value (.int _) | .value (.float _)
      | .value (.str _) | .value (.arr _) | .ndarray _ => rfl

/-- A raw question that is a text is read as it is stored. -/
theorem rawQuestionRead_of_str (hrow : row ∈ base) {text : String}
    (h : rawQuestionOf row = some (.str text)) :
    rawQuestionRead base row = some (.str text) := by
  unfold rawQuestionOf at h
  split at h
  · next extra hextra =>
      have hmem : Json.obj row ∈ base.map Json.obj := List.mem_map_of_mem hrow
      have hchild : Json.obj extra ∈
          Columns.child "extra_info" (base.map Json.obj) :=
        Columns.mem_child hmem hextra
      unfold rawQuestionRead loadRow
      rw [Dict.lookupEntries_map,
        Columns.lookup_readStruct_of_some hmem hextra, Columns.readBack_obj]
      simp only [Option.map_some, loadCell]
      rw [Columns.lookup_readStruct_of_some hchild h, Columns.readBack_str]
  · cases h

/-- The text is the question of the row: of its last message, or of its raw
question. -/
def OwnQuestion (row : List (String × Json)) (content question : String) :
    Prop :=
  question = strip content ∨
    ∃ text, rawQuestionOf row = some (.str text) ∧ question = strip text

/-- The row gives its own question, and a row of the training set carries it. -/
def QuestionKept (py : Builtins) (base : List (List (String × Json)))
    (row : List (String × Json)) (content : String) (written : List VerlRow) :
    Prop :=
  let question := strip (extractQuestionFromRow py (loadRow base row))
  question ≠ "" ∧ OwnQuestion row content question ∧
    ∃ w ∈ written, w.rawQuestion = some question

/-- What is read for the raw question has by coincidence the text of the last
message. -/
def ReadsAsContent (py : Builtins) (base : List (List (String × Json)))
    (row : List (String × Json)) (content : String) : Prop :=
  ∃ raw, rawQuestionRead base row = some raw ∧
    strip (raw.toStr py) = strip content

theorem ownQuestion_extracted_iff (hrow : row ∈ base) {content : String}
    (hcontent : strip content ≠ "") :
    (strip (extractQuestionFromRow py (loadRow base row)) ≠ "" ∧
      OwnQuestion row content
        (strip (extractQuestionFromRow py (loadRow base row)))) ↔
      HasRawQuestion row ∨ ReadsAsContent py base row content := by
  constructor
  · rintro ⟨hne, hcontent' | ⟨text, htext, heq⟩⟩
    · right
      rw [extractQuestionFromRow_loadRow] at hne hcontent'
      cases hread : rawQuestionRead base row with
      | none =>
          rw [hread] at hne
          exact absurd (by decide : strip "" = "") hne
      | some raw =>
          rw [hread] at hcontent'
          exact ⟨raw, hread, hcontent'⟩
    · left
      exact ⟨text, htext, heq ▸ hne⟩
  · rintro (⟨text, htext, hne⟩ | ⟨raw, hread, heq⟩)
    · have hextract : extractQuestionFromRow py (loadRow base row) = text := by
        rw [extractQuestionFromRow_loadRow, rawQuestionRead_of_str hrow htext]
        rfl
      rw [hextract]
      exact ⟨hne, .inr ⟨text, htext, rfl⟩⟩
    · have hextract : extractQuestionFromRow py (loadRow base row) =
          raw.toStr py := by
        rw [extractQuestionFromRow_loadRow, hread]
      rw [hextract, heq]
      exact ⟨hcontent, .inl rfl⟩

/-- **A test question is kept** exactly if it has a raw question that is a text
and not blank, whatever the last message of its prompt says. -/
theorem test_question_kept_iff (py : Builtins)
    {shuffle : List VerlRow → List VerlRow}
    (hshuffle : ∀ rows, (shuffle rows).Perm rows)
    (base : List (List (String × Json)))
    (variants : List (List (String × Json))) (note : String) :
    ∀ row ∈ base, ∀ content, LastMessage row content → strip content ≠ "" →
      (QuestionKept py base row content
          (buildRoundDataset py shuffle (loadRows base) variants note) ↔
        HasRawQuestion row ∨ ReadsAsContent py base row content) := by
  intro row hrow content _ hcontent
  rw [← ownQuestion_extracted_iff hrow hcontent]
  constructor
  · rintro ⟨hne, hown, -⟩
    exact ⟨hne, hown⟩
  · rintro ⟨hne, hown⟩
    refine ⟨hne, hown, ?_⟩
    apply exists_row_of_question hshuffle
    left
    rw [mem_baseQuestions]
    exact ⟨List.mem_map_of_mem (List.mem_map_of_mem hrow), hne⟩

/-- A row in chat format whose question is in its prompt, with or without the raw
question beside it. -/
def exampleChatRow (extra : List (String × Json)) : List (String × Json) :=
  [("prompt", .arr [.obj [("role", .str "user"),
     ("content", .str "Is 91 prime?")]]), ("extra_info", .obj extra)]

theorem lastMessage_exampleChatRow (extra : List (String × Json)) :
    LastMessage (exampleChatRow extra) "Is 91 prime?" :=
  ⟨_, _, rfl, rfl, rfl⟩

theorem test_question_kept_exampleChatRow :
    let base := [exampleChatRow [("raw_question", .str "Is 91 prime?")],
      exampleChatRow [("index", .int 0)]]
    QuestionKept Builtins.plain base
      (exampleChatRow [("raw_question", .str "Is 91 prime?")]) "Is 91 prime?"
      (buildRoundDataset Builtins.plain id (loadRows base) [] "") := by
  intro base
  have hid : ∀ rows : List VerlRow, (id rows).Perm rows := List.Perm.refl
  have hblank : strip "Is 91 prime?" ≠ "" := by decide +kernel
  exact (test_question_kept_iff Builtins.plain hid base [] "" _
    List.mem_cons_self _ (lastMessage_exampleChatRow _) hblank).mpr
    (.inl ⟨_, rfl, hblank⟩)

/-- The language's name for null. -/
def namesNull : Builtins :=
  { Builtins.plain with
    repr := fun
      | .null => "None"
      | _ => "" }

/-- Without it the row is dropped, and nothing is left to train on; beside a row
that has one it is a row about `None`. -/
theorem test_question_dropped :
    let row := exampleChatRow [("index", .int 0)]
    let other := exampleChatRow [("raw_question", .str "2 + 2 = ?")]
    LastMessage row "Is 91 prime?" ∧ strip "Is 91 prime?" ≠ "" ∧
      extractQuestionFromRow namesNull (loadRow [row] row) = "" ∧
      (buildRoundDataset namesNull id (loadRows [row]) [] "").length = 0 ∧
      ¬ QuestionKept namesNull [row] row "Is 91 prime?"
        (buildRoundDataset namesNull id (loadRows [row]) [] "") ∧
      extractQuestionFromRow namesNull (loadRow [row, other] row) = "None" ∧
      ¬ QuestionKept namesNull [row, other] row "Is 91 prime?"
        (buildRoundDataset namesNull id (loadRows [row, other]) [] "") := by
  intro row other
  have hempty : extractQuestionFromRow namesNull (loadRow [row] row) = "" := by
    decide +kernel
  have hnull : extractQuestionFromRow namesNull (loadRow [row, other] row) =
      "None" := by
    decide +kernel
  refine ⟨lastMessage_exampleChatRow _, by decide +kernel, hempty,
    by decide +kernel, ?_, hnull, ?_⟩
  · intro hkept
    exact hkept.1 (by rw [hempty]; decide)
  · rintro ⟨-, hcontent | ⟨text, htext, -⟩, -⟩
    · rw [hnull] at hcontent
      exact absurd hcontent (by decide +kernel)
    · cases htext

end TTSR.Pipeline
