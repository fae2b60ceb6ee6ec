import TTSR.Pipeline.BaseRows
import TTSR.Pipeline.MemoryRounds
import TTSR.Pipeline.Synthesis

/-!
# The data of a round

The files that the programs of one round hand to each other, from the rollout
dump of the Student training to the training set of the next round. The failed
instances and the variants pass through JSONL files, and the shell counts the
lines of the first one to see whether there is anything to synthesise from.

The test questions stay from round to round; the variants are those of the last
round only, at most `MAX_VARIANTS` of them, each read from an answer of the
Teacher in that round (`round_train_spec`).
-/

namespace TTSR.Loop

open TTSR.Foundation TTSR.Foundation.Text TTSR.Foundation.TextFile
open TTSR.Foundation.JsonText TTSR.Foundation.JsonDecode TTSR.Memory
open TTSR.Foundation.DecimalFloat TTSR.Pipeline TTSR.Pipeline.Synthesize

/-! ## The lines of the files -/

/-- A row that `extract_failed` writes. -/
def instanceFields (x : FailedInstance) : List (String × Json) :=
  [("uid", .str x.uid), ("question", .str x.question),
    ("failed_trace", .str x.failedTrace), ("pseudo_target", .str x.pseudoTarget),
    ("score", .float x.score), ("source_file", .str x.sourceFile)]

/-- A row of the file, if its fields are what `extract_failed` writes. -/
def instanceOfFields : List (String × Json) → Option FailedInstance
  | [("uid", .str uid), ("question", .str question),
      ("failed_trace", .str failedTrace), ("pseudo_target", .str pseudoTarget),
      ("score", .float score), ("source_file", .str sourceFile)] =>
      some ⟨uid, question, failedTrace, pseudoTarget, score, sourceFile⟩
  | _ => none

/-- A row that `synthesize` writes. -/
def variantFields (row : Row) : List (String × Json) :=
  [("source_uid", .str row.sourceUid),
    ("reference_question", .str row.referenceQuestion),
    ("question", .str row.question), ("is_synthetic", .bool row.isSynthetic),
    ("teacher_raw", .str row.teacherRaw)] ++
    match row.studentEvaluation with
    | some evaluation => [("student_evaluation", evaluation)]
    | none => []

/-- `FAILED_COUNT`: the lines of the file that are not blank. -/
def failedCount (file : List Char) : ℕ :=
  ((lines file).filter fun line => strip (String.ofList line) ≠ "").length

/-- The rows of a file, if all lines can be read. -/
def rowsOf (dec : Decoder) (path : String) (file : List Char) :
    Option (List (List (String × Json))) :=
  match readJsonl (jsonLoads dec) path file with
  | (rows, none) => some rows
  | (_, some _) => none

/-! ## The loop -/

/-- What does not change from round to round. -/
structure Setup (α : Type*) where
  py : Builtins
  fr : FloatRepr
  dec : Decoder
  memoryConfig : MemoryConfig α
  sim : String → String → α
  maxVariants : ℤ
  evaluatorUrl : String
  /-- The rows of `TEST_FILE`, as they are read. -/
  baseRows : List (List (String × Cell))

/-- What happens in a round: the dump of the Student training, the answers of
the two models, the evaluator that is there, and the shuffle. -/
structure Round where
  dump : List DumpFile
  reflections : List String
  syntheses : List (List String)
  student : Student
  shuffle : List VerlRow → List VerlRow
  shuffle_perm : ∀ rows, (shuffle rows).Perm rows

/-- The files that the next round starts from. -/
structure RoundFiles where
  round : ℕ
  memory : Option (List Char)
  /-- `round_train.parquet`; before the first round `TEST_FILE` takes its
  place. -/
  roundTrain : Option (List VerlRow)

section Loop

variable {α : Type*} (setup : Setup α)

/-- `failed_instances.jsonl`. -/
def failedFile (r : Round) : Except ErrorKind (List Char) :=
  (extractFailed setup.py r.dump (setup.maxVariants * 8) 0).map fun failed =>
    writeJsonl setup.fr (failed.map instanceFields)

/-- The instances of the file, as the next programs read them. -/
def readInstances (dec : Decoder) (text : List Char) :
    Option (List FailedInstance) := do
  let rows ← rowsOf dec "failed_instances.jsonl" text
  rows.mapM instanceOfFields

/-- The rows that `synthesize` writes. -/
def synthesizeRound (r : Round) (failed : List FailedInstance) :
    Option (List Row) :=
  ((synthesize setup.py (jsonLoads setup.dec) (fun _ => true)
    setup.evaluatorUrl r.student setup.maxVariants failed
    r.syntheses).map (·.variants)).toOption

/-- The rows of a round; none if nothing failed. -/
def roundVariants (r : Round) (failed : List FailedInstance) :
    Option (List Row) :=
  if 0 < failed.length then synthesizeRound setup r failed else some []

/-- `variants.jsonl`; an empty file if nothing failed. -/
def variantsFile (r : Round) (failedText : List Char)
    (failed : List FailedInstance) : Option (List Char) :=
  if 0 < failedCount failedText then
    (synthesizeRound setup r failed).map fun rows =>
      writeJsonl setup.fr (rows.map variantFields)
  else some []

/-- The floats of the language are doubles, and an evaluation is a value that
`json.loads` has read. -/
structure Ordinary (_ : RoundFiles) (r : Round) : Prop where
  scores : ∀ failed, extractFailed setup.py r.dump (setup.maxVariants * 8) 0 =
    .ok failed → ∀ x ∈ failed, ∀ q, x.score = .fin q → Rounding.IsDouble q
  evaluations : ∀ questions, ∀ evaluation ∈ r.student.evaluate questions,
    Encodable setup.dec (setup.dec.maxDepth - 1) evaluation

variable [LE α] [DecidableLE α]

/-- The memory after `reflect`, and the text of the note as it is read. -/
def reflectRound (s : RoundFiles) (r : Round) (failed : List FailedInstance) :
    Option (List Char × String) := do
  let entries ← Reflect.memoryIn setup.dec s.memory
  let files ← (Reflect.reflectMain setup.py (jsonLoads setup.dec) (fun _ => true)
    setup.memoryConfig setup.sim entries (s.round + 1) failed
    r.reflections).toOption
  let memory ← (save setup.fr setup.dec.maxDigits files.memory).toOption
  return (memory, String.ofList (readText files.strategyNote.toList))

/-- A whole round. If one of its programs fails, the script ends. -/
def roundStep (s : RoundFiles) (r : Round) : Option RoundFiles := do
  let failedText ← (failedFile setup r).toOption
  let failed ← readInstances setup.dec failedText
  let (memory, note) ← reflectRound setup s r failed
  let variantsText ← variantsFile setup r failedText failed
  let variants ← rowsOf setup.dec "variants.jsonl" variantsText
  return {
    round := s.round + 1
    memory := some memory
    roundTrain := some
      (buildRoundDataset setup.py r.shuffle setup.baseRows variants note) }

/-- A round whose programs hand each other values and not files. -/
def roundOnValues (s : RoundFiles) (r : Round) : Option RoundFiles := do
  let failed ← (extractFailed setup.py r.dump (setup.maxVariants * 8) 0).toOption
  let (memory, note) ← reflectRound setup s r failed
  let variants ← roundVariants setup r failed
  return {
    round := s.round + 1
    memory := some memory
    roundTrain := some (buildRoundDataset setup.py r.shuffle setup.baseRows
      (variants.map variantFields) note) }

def roundMachine : Machine RoundFiles Round :=
  ⟨⟨0, none, none⟩, roundStep setup⟩

end Loop

/-! ## Files that are read back -/

section ReadBack

variable {fr : FloatRepr} {dec : Decoder}

theorem instanceOfFields_instanceFields (x : FailedInstance) :
    instanceOfFields (instanceFields x) = some x := rfl

theorem mapM_instanceOfFields (failed : List FailedInstance) :
    (failed.map instanceFields).mapM instanceOfFields = some failed := by
  induction failed with
  | nil => rfl
  | cons x failed ih =>
      rw [List.map_cons, List.mapM_cons, instanceOfFields_instanceFields, ih]
      rfl

/-- Every row that is written has a line that is counted. -/
theorem failedCount_writeJsonl (rows : List (List (String × Json))) :
    failedCount (writeJsonl fr rows) = rows.length := by
  rw [failedCount, lines_writeJsonl, List.filter_eq_self.mpr, List.length_map]
  intro line hline
  obtain ⟨row, -, rfl⟩ := List.mem_map.mp hline
  rw [strip_line]
  exact decide_eq_true (dumps_ne_empty fr row)

theorem rowsOf_writeJsonl (hfr : ReadsFloats fr dec) (path : String)
    {rows : List (List (String × Json))}
    (h : ∀ row ∈ rows, Encodable dec dec.maxDepth (.obj row)) :
    rowsOf dec path (writeJsonl fr rows) = some rows := by
  have hloads : ∀ row ∈ rows,
      jsonLoads dec (String.ofList (dumps fr (.obj row))) = .ok (.obj row) :=
    fun row hrow => jsonLoads_dumps hfr (h row hrow)
  rw [rowsOf, readJsonl, lines_writeJsonl, readLines_map_dumps hloads]

theorem encodable_instanceFields (hdepth : 1 ≤ dec.maxDepth) {x : FailedInstance}
    (hscore : ∀ q, x.score = .fin q → Rounding.IsDouble q) :
    Encodable dec dec.maxDepth (.obj (instanceFields x)) := by
  obtain ⟨depth, hdec⟩ : ∃ depth, dec.maxDepth = depth + 1 :=
    ⟨dec.maxDepth - 1, by omega⟩
  have hfloat : Encodable dec depth (.float x.score) := by
    cases hx : x.score with
    | fin q => exact (encodable_float q).mpr (hscore q hx)
    | inf neg => cases depth <;> trivial
    | nan => cases depth <;> trivial
  rw [hdec, encodable_obj]
  refine ⟨by simp [instanceFields], ?_⟩
  simp [instanceFields, hfloat]

theorem encodable_variantFields (hdepth : 1 ≤ dec.maxDepth) {row : Row}
    (hevaluation : ∀ evaluation ∈ row.studentEvaluation,
      Encodable dec (dec.maxDepth - 1) evaluation) :
    Encodable dec dec.maxDepth (.obj (variantFields row)) := by
  obtain ⟨depth, hdec⟩ : ∃ depth, dec.maxDepth = depth + 1 :=
    ⟨dec.maxDepth - 1, by omega⟩
  rw [hdec, Nat.add_sub_cancel] at hevaluation
  rw [hdec, encodable_obj, variantFields]
  cases hrow : row.studentEvaluation with
  | none => simp
  | some evaluation =>
      have := hevaluation evaluation hrow
      simp [this]

end ReadBack

/-! ## The variants of a round -/

section Variants

variable {py : Builtins} {loads : String → Except LoadsError Json}

/-- The rows of the loop: at most one for each instance, each with a question
that was parsed from an output, and none with an evaluation. -/
theorem parseRows_rows : ∀ {failed : List FailedInstance}
    {outputs : List (List String)} {rows : List Row},
    parseRows py loads failed outputs = .ok rows →
      rows.length ≤ failed.length ∧ ∀ row ∈ rows, row.studentEvaluation = none ∧
        ∃ texts ∈ outputs, parseQuestion py loads (rawText texts) =
          .ok row.question
  | [], _, rows, h => by
      obtain rfl := Except.ok.inj h
      simp
  | _ :: _, [], rows, h => by
      obtain rfl := Except.ok.inj h
      simp
  | src :: failed, texts :: outputs, rows, h => by
      obtain ⟨q, rest, hq, hrest, rfl⟩ := parseRows_cons_eq_ok_iff.mp h
      obtain ⟨hlength, hrows⟩ := parseRows_rows hrest
      refine ⟨Nat.succ_le_succ hlength, fun row hrow => ?_⟩
      rcases List.mem_cons.mp hrow with rfl | hrow
      · exact ⟨rfl, texts, List.mem_cons_self, hq⟩
      · obtain ⟨hnone, texts', htexts', hq'⟩ := hrows row hrow
        exact ⟨hnone, texts', List.mem_cons_of_mem _ htexts', hq'⟩

/-- Attaching changes nothing but the evaluations. -/
theorem attach_rows : ∀ {rows rows' : List Row} {evs : List Json},
    attach rows evs = .ok rows' →
      List.Forall₂ (fun row row' => row'.question = row.question ∧
        (row'.studentEvaluation = row.studentEvaluation ∨
          ∃ ev ∈ evs, row'.studentEvaluation = some ev)) rows rows'
  | [], rows', [], h => by
      obtain rfl := Except.ok.inj h
      exact .nil
  | [], _, _ :: _, h => by cases h
  | row :: rows, rows', evs, h => by
      unfold attach at h
      by_cases hv : row.isValid = true
      · rw [if_pos hv] at h
        cases evs with
        | nil => cases h
        | cons ev evs =>
            obtain ⟨rest, hrest, rfl⟩ := map_eq_ok_iff.mp h
            refine .cons ⟨rfl, Or.inr ⟨ev, List.mem_cons_self, rfl⟩⟩ ?_
            refine (attach_rows hrest).imp fun a b hab => ⟨hab.1, ?_⟩
            apply hab.2.imp_right
            rintro ⟨ev', hev', heq⟩
            exact ⟨ev', List.mem_cons_of_mem _ hev', heq⟩
      · rw [if_neg hv] at h
        obtain ⟨rest, hrest, rfl⟩ := map_eq_ok_iff.mp h
        exact .cons ⟨rfl, Or.inl rfl⟩ (attach_rows hrest)

/-- What stands in the file of the variants. -/
theorem synthesize_rows {encodes : String → Bool} {url : String}
    {student : Student} {maxVariants : ℤ} {failed : List FailedInstance}
    {outputs : List (List String)} {files : Files}
    (h : synthesize py loads encodes url student maxVariants failed outputs =
      .ok files) :
    files.variants.length ≤ (firstInstances maxVariants failed).length ∧
      ∀ row ∈ files.variants,
        (∃ texts ∈ outputs, parseQuestion py loads (rawText texts) =
          .ok row.question) ∧
        ∀ ev ∈ row.studentEvaluation, ∃ questions,
          ev ∈ student.evaluate questions := by
  cases hrows : parseRows py loads (firstInstances maxVariants failed)
      outputs with
  | error exc =>
      rw [synthesize, hrows] at h
      cases h
  | ok rows =>
      obtain ⟨-, -, rows', hattach, rfl⟩ := (synthesize_of_rows hrows).mp h
      obtain ⟨hlength, hparsed⟩ := parseRows_rows hrows
      have hforall := attach_rows hattach
      refine ⟨hforall.length_eq ▸ hlength, fun row' hrow' => ?_⟩
      obtain ⟨row, hrow, hquestion, hevaluation⟩ :=
        exists_of_forall₂_right hforall hrow'
      obtain ⟨hnone, htexts⟩ := hparsed row hrow
      refine ⟨hquestion ▸ htexts, fun ev hev => ?_⟩
      rcases hevaluation with heq | ⟨ev', hev', heq⟩
      · rw [heq, hnone] at hev
        cases hev
      · rw [heq] at hev
        obtain rfl := Option.some.inj hev
        exact ⟨_, hev'⟩

end Variants

/-! ## The training set of the next round -/

section RoundTrain

variable {α : Type*} {setup : Setup α} {testFile : List VerlRow}

/-- `TEST_FILE` is a file that `prepare_dataset` has written. -/
structure PreparedTests (setup : Setup α) (testFile : List VerlRow) :
    Prop where
  prepared : ∀ test ∈ testFile, Prepared test
  baseRows_eq : setup.baseRows = loadRows (testFile.map (·.stored))

/-- Every test question once, and at most `MAX_VARIANTS` variants that the
Teacher has written in this round. -/
structure RoundSet (setup : Setup α) (testFile : List VerlRow) (r : Round)
    (rows : List VerlRow) : Prop where
  once : (rows.map (·.rawQuestion)).Nodup
  tests : ∀ q, (∃ row ∈ rows, row.rawQuestion = some q ∧
    row.isSynthetic = some false) ↔
      q ≠ "" ∧ ∃ test ∈ testFile, test.rawQuestion.map strip = some q
  bounded : (rows.filter fun row => row.isSynthetic = some true).length ≤
    setup.maxVariants.toNat
  variants : ∀ row ∈ rows, row.isSynthetic = some true →
    ∃ texts ∈ r.syntheses, ∃ q,
      parseQuestion setup.py (jsonLoads setup.dec) (rawText texts) = .ok q ∧
        row.rawQuestion = some (strip q)
  rendered : ∃ note, ∀ row ∈ rows, RenderedWith note row

theorem length_keptVariants_le (py : Builtins) (note : String)
    (baseRows : List (List (String × Cell)))
    (variants : List (List (String × Json))) :
    (keptVariants py note baseRows variants).length ≤ variants.length := by
  rw [keptVariants, List.length_map]
  calc _ ≤ ((variantQuestions py variants).zipIdx.filter (named ·.1)).length :=
        (FirstOccurrence.firstBy_sublist _ _).length_le
    _ ≤ (variantQuestions py variants).zipIdx.length := List.length_filter_le _ _
    _ = (variantQuestions py variants).length := List.length_zipIdx
    _ ≤ variants.length := by
        rw [variantQuestions]
        exact (List.length_filter_le _ _).trans (List.length_map _).le

theorem roundSet_of_variants (htests : PreparedTests setup testFile)
    {r : Round} {variants : List Row}
    (hlength : variants.length ≤ setup.maxVariants.toNat)
    (hparsed : ∀ row ∈ variants, ∃ texts ∈ r.syntheses,
      parseQuestion setup.py (jsonLoads setup.dec) (rawText texts) =
        .ok row.question) (note : String) :
    RoundSet setup testFile r (buildRoundDataset setup.py r.shuffle
      setup.baseRows (variants.map variantFields) note) where
  once := by
    apply (((r.shuffle_perm _).map VerlRow.rawQuestion).nodup_iff).mpr
    rw [dedupFrom_eq_firstBy]
    exact FirstOccurrence.nodup_map_firstBy _ _
  tests := by
    intro q
    rw [← mem_baseQuestions_stored htests.prepared,
      ← htests.baseRows_eq]
    constructor
    · rintro ⟨row, hrow, hq, hsynthetic⟩
      rcases (mem_buildRoundDataset r.shuffle_perm).mp hrow with
        ⟨i, q', hi, rfl⟩ | ⟨k, q', hk, hbase, rfl⟩
      · obtain rfl := Option.some.inj hq
        exact firstAt_baseTexts.mp ⟨i, hi⟩
      · cases hsynthetic
    · intro hq
      obtain ⟨i, hi⟩ := firstAt_baseTexts.mpr hq
      exact ⟨_, (mem_buildRoundDataset r.shuffle_perm).mpr
        (.inl ⟨i, q, hi, rfl⟩), rfl, rfl⟩
  bounded := by
    have hperm : (buildRoundDataset setup.py r.shuffle setup.baseRows
        (variants.map variantFields) note).Perm
          (keptTests setup.py note setup.baseRows ++
            keptVariants setup.py note setup.baseRows
              (variants.map variantFields)) :=
      buildRoundDataset_perm r.shuffle_perm
    have hsynthetic := hperm.filter fun row => row.isSynthetic = some true
    have htests : (keptTests setup.py note setup.baseRows).filter
        (fun row => row.isSynthetic = some true) = [] := by
      rw [List.filter_eq_nil_iff]
      intro row hrow
      obtain ⟨i, q, -, rfl⟩ := mem_keptTests.mp hrow
      simp [testRow]
    rw [hsynthetic.length_eq, List.filter_append, htests, List.nil_append]
    calc _ ≤ (keptVariants setup.py note setup.baseRows
          (variants.map variantFields)).length := List.length_filter_le _ _
      _ ≤ (variants.map variantFields).length := length_keptVariants_le _ _ _ _
      _ ≤ setup.maxVariants.toNat := by rwa [List.length_map]
  variants := by
    intro row hrow hsynthetic
    rcases (mem_buildRoundDataset r.shuffle_perm).mp hrow with
      ⟨i, q, hi, rfl⟩ | ⟨k, q, hk, -, rfl⟩
    · cases hsynthetic
    · have hq := firstAt_variantQuestions.mp ⟨k, hk⟩
      rw [variantQuestions, List.map_map, List.mem_filter, List.mem_map] at hq
      obtain ⟨⟨variant, hvariant, rfl⟩, -⟩ := hq
      obtain ⟨texts, htexts, hparse⟩ := hparsed variant hvariant
      exact ⟨texts, htexts, variant.question, hparse, rfl⟩
  rendered := ⟨note, fun _ hrow => renderedWith_of_mem r.shuffle_perm hrow⟩

/-- At most `8 * MAX_VARIANTS` instances are kept, and none for a bound that is
not positive. -/
theorem length_firstInstances_le {maxVariants : ℤ}
    {failed : List FailedInstance} (hne : 0 < failed.length)
    (hlength : failed.length ≤ (max 0 (maxVariants * 8)).toNat) :
    (firstInstances maxVariants failed).length ≤ maxVariants.toNat := by
  have hpos : 0 < maxVariants := by omega
  rw [firstInstances, if_pos hpos]
  exact List.length_take_le _ _

theorem readInstances_writeJsonl (hfr : ReadsFloats setup.fr setup.dec)
    (hdepth : 1 ≤ setup.dec.maxDepth) {failed : List FailedInstance}
    (hscores : ∀ x ∈ failed, ∀ q, x.score = .fin q → Rounding.IsDouble q) :
    readInstances setup.dec (writeJsonl setup.fr (failed.map instanceFields)) =
      some failed := by
  have hread : rowsOf setup.dec "failed_instances.jsonl"
      (writeJsonl setup.fr (failed.map instanceFields)) =
        some (failed.map instanceFields) := by
    refine rowsOf_writeJsonl hfr _ fun row hrow => ?_
    obtain ⟨x, hx, rfl⟩ := List.mem_map.mp hrow
    exact encodable_instanceFields hdepth (hscores x hx)
  rw [readInstances, hread]
  exact mapM_instanceOfFields failed

/-- What `synthesize` writes for a round. -/
theorem synthesizeRound_spec {r : Round} {failed : List FailedInstance}
    {rows : List Row} (h : synthesizeRound setup r failed = some rows) :
    rows.length ≤ (firstInstances setup.maxVariants failed).length ∧
      ∀ row ∈ rows,
        (∃ texts ∈ r.syntheses, parseQuestion setup.py (jsonLoads setup.dec)
          (rawText texts) = .ok row.question) ∧
        ∀ ev ∈ row.studentEvaluation, ∃ questions,
          ev ∈ r.student.evaluate questions := by
  rw [synthesizeRound, toOption_eq_some_iff] at h
  obtain ⟨files, hfiles, rfl⟩ := map_eq_ok_iff.mp h
  exact synthesize_rows hfiles

/-- The variants come through their file as they are. -/
theorem rowsOf_variantsFile (hfr : ReadsFloats setup.fr setup.dec)
    (hdepth : 1 ≤ setup.dec.maxDepth) {s : RoundFiles} {r : Round}
    (hr : Ordinary setup s r) (failed : List FailedInstance) :
    (variantsFile setup r (writeJsonl setup.fr (failed.map instanceFields))
        failed).bind (rowsOf setup.dec "variants.jsonl") =
      (roundVariants setup r failed).map (·.map variantFields) := by
  rw [variantsFile, roundVariants, failedCount_writeJsonl, List.length_map]
  split_ifs with hcount
  · cases hrows : synthesizeRound setup r failed with
    | none => rfl
    | some rows =>
        refine rowsOf_writeJsonl hfr _ fun fields hfields => ?_
        obtain ⟨row, hrow, rfl⟩ := List.mem_map.mp hfields
        refine encodable_variantFields hdepth fun evaluation hevaluation => ?_
        obtain ⟨questions, hmem⟩ :=
          ((synthesizeRound_spec hrows).2 row hrow).2 evaluation hevaluation
        exact hr.evaluations questions evaluation hmem
  · rfl

/-- The files change nothing: a round through them is the round on values. -/
theorem roundStep_eq_onValues [LE α] [DecidableLE α]
    (hfr : ReadsFloats setup.fr setup.dec) (hdepth : 1 ≤ setup.dec.maxDepth)
    {s : RoundFiles} {r : Round} (hr : Ordinary setup s r) :
    roundStep setup s r = roundOnValues setup s r := by
  rw [roundStep, roundOnValues, failedFile]
  cases hfailed : extractFailed setup.py r.dump (setup.maxVariants * 8) 0 with
  | error exc => rfl
  | ok failed =>
      have hread := readInstances_writeJsonl hfr hdepth (hr.scores failed hfailed)
      have hvariants := rowsOf_variantsFile hfr hdepth hr failed
      show (readInstances setup.dec
        (writeJsonl setup.fr (failed.map instanceFields))).bind _ =
          (reflectRound setup s r failed).bind _
      rw [hread]
      show (reflectRound setup s r failed).bind _ = _
      refine congrArg _ (funext fun p => ?_)
      show ((variantsFile setup r _ failed).bind fun text =>
        (rowsOf setup.dec "variants.jsonl" text).bind _) = _
      rw [← Option.bind_assoc, hvariants]
      cases roundVariants setup r failed <;> rfl

/-- Everything a round can do. -/
theorem roundOnValues_cases [LE α] [DecidableLE α] {s s' : RoundFiles}
    {r : Round} (h : roundOnValues setup s r = some s') :
    ∃ failed note, ∃ variants : List Row,
      extractFailed setup.py r.dump (setup.maxVariants * 8) 0 = .ok failed ∧
      variants.length ≤ setup.maxVariants.toNat ∧
      (∀ row ∈ variants, ∃ texts ∈ r.syntheses,
        parseQuestion setup.py (jsonLoads setup.dec) (rawText texts) =
          .ok row.question) ∧
      s'.round = s.round + 1 ∧
      s'.roundTrain = some (buildRoundDataset setup.py r.shuffle setup.baseRows
        (variants.map variantFields) note) := by
  obtain ⟨failed, hfailed, h⟩ := Option.bind_eq_some_iff.mp h
  obtain ⟨⟨memory, note⟩, -, h⟩ := Option.bind_eq_some_iff.mp h
  obtain ⟨variants, hvariants, h⟩ := Option.bind_eq_some_iff.mp h
  obtain rfl := Option.some.inj h
  rw [toOption_eq_some_iff] at hfailed
  rw [roundVariants] at hvariants
  refine ⟨failed, note, variants, hfailed, ?_, ?_, rfl, rfl⟩
  · split_ifs at hvariants with hcount
    · exact (synthesizeRound_spec hvariants).1.trans
        (length_firstInstances_le hcount (length_extractFailed_le hfailed))
    · obtain rfl := Option.some.inj hvariants
      exact Nat.zero_le _
  · intro row hrow
    split_ifs at hvariants
    · exact ((synthesizeRound_spec hvariants).2 row hrow).1
    · obtain rfl := Option.some.inj hvariants
      cases hrow

end RoundTrain

/-! ## One round -/

/-- An evaluator that has nothing to say. -/
def silentStudent : Student where
  evaluate questions := questions.map fun _ => .null
  length_evaluate _ := List.length_map _

/-- One test question, one variant. -/
def exampleSetup : Setup ℚ where
  py := .plain
  fr := exactRepr
  dec := exactDecoder 4300 3
  memoryConfig := defaultConfig
  sim := Reflect.equalSim
  maxVariants := 1
  evaluatorUrl := "http://127.0.0.1:8877"
  baseRows := [exampleBaseRow "Is 91 prime?"]

/-- The row as `prepare_dataset` has written it. -/
def exampleTestFile : List VerlRow :=
  [toVerlRow "Is 91 prime?" "no" "math" "test" 0 "Think."]

theorem prepared_exampleTestFile : ∀ test ∈ exampleTestFile, Prepared test := by
  intro test htest
  obtain rfl := List.mem_singleton.mp htest
  exact ⟨_, _, _, _, _, _, rfl⟩

theorem preparedTests_exampleSetup :
    PreparedTests exampleSetup exampleTestFile where
  prepared := prepared_exampleTestFile
  baseRows_eq := by
    rw [loadRows_stored prepared_exampleTestFile]
    rfl

def exampleDump : List DumpFile :=
  [⟨"1", "r/1.jsonl", [[("group_uid", .str "u1"),
    ("input", .str "Question: Is 91 prime?"), ("output", .str "Yes."),
    ("score", .float (.fin 0))]]⟩]

def exampleRound : Round where
  dump := exampleDump
  reflections := [Reflect.goodOutput]
  syntheses := [["<question>Is 87 prime?</question>"]]
  student := silentStudent
  shuffle := id
  shuffle_perm _ := .refl _

theorem ordinary_exampleRound (s : RoundFiles) :
    Ordinary exampleSetup s exampleRound where
  scores := by
    intro failed h x hx q hq
    obtain rfl : failed = [⟨"u1", "Is 91 prime?", "Yes.", "", .fin 0, "r/1.jsonl"⟩] :=
      (Except.ok.inj (h.symm.trans rfl))
    obtain rfl := List.mem_singleton.mp hx
    obtain rfl := PyFloat.fin.inj hq
    decide +kernel
  evaluations := by
    intro questions evaluation h
    obtain ⟨q, -, rfl⟩ := List.mem_map.mp h
    exact encodable_null

end TTSR.Loop
