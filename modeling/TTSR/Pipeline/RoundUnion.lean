import TTSR.Pipeline.RoundDataset

/-!
# Which rows a round's training set has

`build_round_dataset` promises the union of the test questions and the variants.
`mem_buildRoundDataset` says which rows it writes: the first test row of every
test question, numbered by its place in the file, and the first variant of every
question that is no test question, numbered behind the test rows that have a
question.

So every question of the union is there once (`round_union`). The two numberings
fit together only if no blank test row comes before one that is kept
(`index_nodup_iff`).
-/

namespace TTSR.Pipeline

open TTSR.Foundation TTSR.Foundation.Text TTSR.Foundation.FirstOccurrence

/-- `extra_info.is_synthetic`. -/
def VerlRow.isSynthetic (row : VerlRow) : Option Bool :=
  match Dict.lookupEntries "is_synthetic" row.extraInfo with
  | some (.bool b) => some b
  | _ => none

section AsPromptRow

variable (question note source : String) (idx : ℕ) (isSynthetic : Bool)

@[simp] theorem rawQuestion_asPromptRow :
    (asPromptRow question note source idx isSynthetic).rawQuestion =
      some question := rfl

@[simp] theorem index_asPromptRow :
    (asPromptRow question note source idx isSynthetic).index =
      some (idx : ℤ) := rfl

@[simp] theorem isSynthetic_asPromptRow :
    (asPromptRow question note source idx isSynthetic).isSynthetic =
      some isSynthetic := rfl

end AsPromptRow

/-! ## The questions -/

/-- A question that is not blank, for a stripped text. -/
def named (question : String) : Bool := question ≠ ""

/-- The stripped results of `_extract_question_from_row`, blank ones included. -/
def baseTexts (py : Builtins) (baseRows : List (List (String × Cell))) :
    List String :=
  baseRows.map fun row => strip (extractQuestionFromRow py row)

def baseQuestions (py : Builtins) (baseRows : List (List (String × Cell))) :
    List String :=
  (baseTexts py baseRows).filter named

def variantQuestions (py : Builtins)
    (variants : List (List (String × Json))) : List String :=
  (variants.map fun row => strip (variantQuestion py row)).filter named

/-- The row of the test question at place `p.2` of the file. -/
def testRow (note : String) (p : String × ℕ) : VerlRow :=
  asPromptRow p.1 note "ttsr_test" p.2 false

/-- The row of the variant number `p.2`. -/
def variantRow (note : String) (offset : ℕ) (p : String × ℕ) : VerlRow :=
  asPromptRow p.1 note "ttsr_variant" (offset + p.2) true

variable {py : Builtins} {note : String}

theorem mem_baseQuestions {baseRows : List (List (String × Cell))} {q : String} :
    q ∈ baseQuestions py baseRows ↔ q ∈ baseTexts py baseRows ∧ q ≠ "" := by
  simp [baseQuestions, named]

theorem testRows_eq (baseRows : List (List (String × Cell))) :
    testRows py note baseRows =
      ((baseTexts py baseRows).zipIdx.filter (named ·.1)).map
        (testRow note) := by
  rw [testRows, baseTexts, List.zipIdx_map]
  generalize baseRows.zipIdx = numbered
  induction numbered with
  | nil => rfl
  | cons p numbered ih =>
      by_cases hblank : strip (extractQuestionFromRow py p.1) = ""
      · simp [hblank, named, ih]
      · simp [hblank, named, ih, testRow]

theorem variantQuestions_eq (variants : List (List (String × Json))) :
    variantQuestions py variants =
      (variants.filter fun row => strip (variantQuestion py row) ≠ "").map
        fun row => strip (variantQuestion py row) := by
  rw [variantQuestions, List.filter_map]
  simp only [Function.comp_def, named]

theorem variantRows_eq (offset : ℕ) (variants : List (List (String × Json))) :
    variantRows py note offset variants =
      ((variantQuestions py variants).zipIdx.filter (named ·.1)).map
        (variantRow note offset) := by
  have hnamed : (variantQuestions py variants).zipIdx.filter (named ·.1) =
      (variantQuestions py variants).zipIdx := by
    refine List.filter_eq_self.mpr fun p hp => ?_
    exact List.of_mem_filter (List.fst_mem_of_mem_zipIdx hp)
  rw [hnamed, variantQuestions_eq, List.zipIdx_map, List.map_map]
  rfl

/-! ## The rows -/

theorem map_fst_numbered (texts : List String) :
    (texts.zipIdx.filter (named ·.1)).map Prod.fst = texts.filter named := by
  have hfst : (texts.zipIdx.map Prod.fst).filter named = texts.filter named := by
    rw [List.zipIdx_map_fst]
  rw [← hfst, List.filter_map]
  rfl

theorem map_rawQuestion_testRows (baseRows : List (List (String × Cell))) :
    (testRows py note baseRows).map (·.rawQuestion) =
      (baseQuestions py baseRows).map some := by
  rw [baseQuestions, ← map_fst_numbered, testRows_eq, List.map_map, List.map_map]
  rfl

theorem length_testRows (baseRows : List (List (String × Cell))) :
    (testRows py note baseRows).length = (baseQuestions py baseRows).length := by
  rw [← List.length_map (f := VerlRow.rawQuestion), map_rawQuestion_testRows,
    List.length_map]

/-- The test rows that are kept. -/
def keptTests (py : Builtins) (note : String)
    (baseRows : List (List (String × Cell))) : List VerlRow :=
  (firstBy Prod.fst [] ((baseTexts py baseRows).zipIdx.filter (named ·.1))).map
    (testRow note)

/-- The variant rows that are kept. -/
def keptVariants (py : Builtins) (note : String)
    (baseRows : List (List (String × Cell)))
    (variants : List (List (String × Json))) : List VerlRow :=
  (firstBy Prod.fst (baseQuestions py baseRows)
    ((variantQuestions py variants).zipIdx.filter (named ·.1))).map
      (variantRow note (baseQuestions py baseRows).length)

variable {baseRows : List (List (String × Cell))}
  {variants : List (List (String × Json))} {row : VerlRow}

theorem mem_keptTests : row ∈ keptTests py note baseRows ↔
    ∃ i q, FirstAt named (baseTexts py baseRows) i q ∧
      row = testRow note (q, i) := by
  rw [keptTests, List.mem_map]
  constructor
  · rintro ⟨⟨q, j⟩, hp, rfl⟩
    obtain ⟨-, i, rfl, hi⟩ := mem_firstBy_zipIdx.mp hp
    exact ⟨i, q, hi, by rw [Nat.zero_add]⟩
  · rintro ⟨i, q, hi, rfl⟩
    refine ⟨(q, i), mem_firstBy_zipIdx.mpr ⟨by simp, i, ?_, hi⟩, rfl⟩
    exact (Nat.zero_add i).symm

theorem mem_keptVariants : row ∈ keptVariants py note baseRows variants ↔
    ∃ k q, FirstAt named (variantQuestions py variants) k q ∧
      q ∉ baseQuestions py baseRows ∧
      row = variantRow note (baseQuestions py baseRows).length (q, k) := by
  rw [keptVariants, List.mem_map]
  constructor
  · rintro ⟨⟨q, j⟩, hp, rfl⟩
    obtain ⟨hq, k, rfl, hk⟩ := mem_firstBy_zipIdx.mp hp
    exact ⟨k, q, hk, hq, by rw [Nat.zero_add]⟩
  · rintro ⟨k, q, hk, hq, rfl⟩
    refine ⟨(q, k), mem_firstBy_zipIdx.mpr ⟨hq, k, ?_, hk⟩, rfl⟩
    exact (Nat.zero_add k).symm

/-- The rows that are written, in some order. -/
theorem buildRoundDataset_perm {shuffle : List VerlRow → List VerlRow}
    (hshuffle : ∀ rows, (shuffle rows).Perm rows) :
    (buildRoundDataset py shuffle baseRows variants note).Perm
      (keptTests py note baseRows ++
        keptVariants py note baseRows variants) := by
  refine (hshuffle _).trans (List.Perm.of_eq ?_)
  rw [dedupFrom_eq_firstBy, firstBy_append, map_rawQuestion_testRows,
    List.append_nil, length_testRows, testRows_eq, variantRows_eq, firstBy_map,
    firstBy_map, keptTests, keptVariants]
  congr 2
  · exact firstBy_comp (Option.some_injective String) [] _
  · exact firstBy_comp (Option.some_injective String) _ _

/-- **The rows that are written**: the test row of the first place of every test
question, and the variant row of the first place of every other question. -/
theorem mem_buildRoundDataset {shuffle : List VerlRow → List VerlRow}
    (hshuffle : ∀ rows, (shuffle rows).Perm rows) :
    row ∈ buildRoundDataset py shuffle baseRows variants note ↔
      (∃ i q, FirstAt named (baseTexts py baseRows) i q ∧
        row = testRow note (q, i)) ∨
      ∃ k q, FirstAt named (variantQuestions py variants) k q ∧
        q ∉ baseQuestions py baseRows ∧
        row = variantRow note (baseQuestions py baseRows).length (q, k) := by
  rw [(buildRoundDataset_perm hshuffle).mem_iff, List.mem_append,
    mem_keptTests, mem_keptVariants]

/-! ## The union -/

/-- The row of a question: where the question is from, and that the row is
rendered with it. -/
structure DescribesQuestion (base variants : List String) (note : String)
    (row : VerlRow) (question : String) : Prop where
  rawQuestion : row.rawQuestion = some question
  member : question ∈ base ∨ question ∈ variants
  synthetic : row.isSynthetic =
    some (decide (question ∈ variants ∧ question ∉ base))
  source : row.dataSource = "ttsr_variant" ↔
    question ∈ variants ∧ question ∉ base
  prompt : row.prompt = [⟨"user", studentPrompt question note⟩]

theorem describesQuestion_testRow {base variants : List String} {q : String}
    {i : ℕ} (h : q ∈ base) :
    DescribesQuestion base variants note (testRow note (q, i)) q where
  rawQuestion := rfl
  member := .inl h
  synthetic := by simp [testRow, h]
  source := by
    refine iff_of_false ?_ fun hboth => hboth.2 h
    simp [testRow, asPromptRow]
  prompt := rfl

theorem describesQuestion_variantRow {base variants : List String} {q : String}
    {offset k : ℕ} (hq : q ∈ variants) (hbase : q ∉ base) :
    DescribesQuestion base variants note (variantRow note offset (q, k)) q where
  rawQuestion := rfl
  member := .inr hq
  synthetic := by simp [variantRow, hq, hbase]
  source := iff_of_true rfl ⟨hq, hbase⟩
  prompt := rfl

theorem firstAt_baseTexts {q : String} :
    (∃ i, FirstAt named (baseTexts py baseRows) i q) ↔
      q ∈ baseQuestions py baseRows := by
  rw [exists_firstAt_iff, baseQuestions, List.mem_filter]

theorem firstAt_variantQuestions {q : String} :
    (∃ k, FirstAt named (variantQuestions py variants) k q) ↔
      q ∈ variantQuestions py variants := by
  rw [exists_firstAt_iff]
  exact and_iff_left_of_imp List.of_mem_filter

section Written

variable {shuffle : List VerlRow → List VerlRow}

/-- Every row that is written describes a question of the union. -/
theorem exists_describesQuestion
    (hshuffle : ∀ rows, (shuffle rows).Perm rows)
    (h : row ∈ buildRoundDataset py shuffle baseRows variants note) :
    ∃ q, DescribesQuestion (baseQuestions py baseRows)
      (variantQuestions py variants) note row q := by
  rcases (mem_buildRoundDataset hshuffle).mp h with
    ⟨i, q, hi, rfl⟩ | ⟨k, q, hk, hbase, rfl⟩
  · exact ⟨q, describesQuestion_testRow (firstAt_baseTexts.mp ⟨i, hi⟩)⟩
  · exact ⟨q, describesQuestion_variantRow
      (firstAt_variantQuestions.mp ⟨k, hk⟩) hbase⟩

/-- Every question of the union has a row. -/
theorem exists_row_of_question
    (hshuffle : ∀ rows, (shuffle rows).Perm rows) {q : String}
    (hq : q ∈ baseQuestions py baseRows ∨ q ∈ variantQuestions py variants) :
    ∃ row ∈ buildRoundDataset py shuffle baseRows variants note,
      row.rawQuestion = some q := by
  by_cases hbase : q ∈ baseQuestions py baseRows
  · obtain ⟨i, hi⟩ := firstAt_baseTexts.mpr hbase
    exact ⟨_, (mem_buildRoundDataset hshuffle).mpr (.inl ⟨i, q, hi, rfl⟩), rfl⟩
  · obtain ⟨k, hk⟩ := firstAt_variantQuestions.mpr (hq.resolve_left hbase)
    exact ⟨_, (mem_buildRoundDataset hshuffle).mpr
      (.inr ⟨k, q, hk, hbase, rfl⟩), rfl⟩

end Written

/-- **The training set is the union**: every question of the two lists is there
once and nothing else; a row is marked synthetic exactly if its question is a
variant and no test question; and every row is rendered with its question and
the note. -/
theorem round_union (py : Builtins) {shuffle : List VerlRow → List VerlRow}
    (hshuffle : ∀ rows, (shuffle rows).Perm rows)
    (baseRows : List (List (String × Cell)))
    (variants : List (List (String × Json))) (note : String) :
    let base := baseQuestions py baseRows
    let vars := variantQuestions py variants
    let written := buildRoundDataset py shuffle baseRows variants note
    (written.map (·.rawQuestion)).Nodup ∧
    (∀ q, (∃ row ∈ written, row.rawQuestion = some q) ↔ q ∈ base ∨ q ∈ vars) ∧
    ∀ row ∈ written, ∃ q, DescribesQuestion base vars note row q := by
  intro base vars written
  refine ⟨?_, ?_, fun row hrow => exists_describesQuestion hshuffle hrow⟩
  · apply (((hshuffle _).map VerlRow.rawQuestion).nodup_iff).mpr
    rw [dedupFrom_eq_firstBy]
    exact nodup_map_firstBy _ _
  · intro q
    constructor
    · rintro ⟨row, hrow, hq⟩
      obtain ⟨q', hrow'⟩ := exists_describesQuestion hshuffle hrow
      obtain rfl : q' = q := Option.some.inj (hrow'.rawQuestion.symm.trans hq)
      exact hrow'.member
    · exact exists_row_of_question hshuffle

/-- A test row as `prepare_dataset` writes it, read back. -/
def exampleBaseRow (question : String) : List (String × Cell) :=
  (toVerlRow question "no" "math" "test" 0 "Think.").read

/-- One question is in both lists, and one variant is blank. -/
def exampleVariants : List (List (String × Json)) :=
  [[("question", .str "Is 91 prime?")], [("question", .str " ")],
   [("question", .str "Is 93 prime? ")]]

theorem round_union_example :
    let written := buildRoundDataset Builtins.plain id
      [exampleBaseRow "Is 91 prime?"] exampleVariants "Check small factors."
    (written.map (·.rawQuestion)).Nodup ∧
      ∃ row ∈ written, row.rawQuestion = some "Is 93 prime?" := by
  have hid : ∀ rows : List VerlRow, (id rows).Perm rows := List.Perm.refl
  have hunion := round_union Builtins.plain hid
    [exampleBaseRow "Is 91 prime?"] exampleVariants "Check small factors."
  refine ⟨hunion.1, (hunion.2.1 _).mpr (.inr ?_)⟩
  decide +kernel

/-! ## The indices -/

/-- Rows that are made of numbered questions, with the numbers moved by
`offset`, have different indices. -/
theorem nodup_map_index (mk : String × ℕ → VerlRow) (offset : ℕ)
    (hmk : ∀ p, (mk p).index = some ((offset + p.2 : ℕ) : ℤ))
    (seen texts : List String) :
    (((firstBy Prod.fst seen (texts.zipIdx.filter (named ·.1))).map mk).map
      (·.index)).Nodup := by
  have hinj : Function.Injective
      fun i : ℕ => some ((offset + i : ℕ) : ℤ) := by
    intro i j hij
    have := Option.some.inj hij
    omega
  have hindex : VerlRow.index ∘ mk =
      (fun i : ℕ => some ((offset + i : ℕ) : ℤ)) ∘ Prod.snd := funext hmk
  rw [List.map_map, hindex, ← List.map_map]
  exact (nodup_map_snd_firstBy named seen texts 0).map hinj

/-- **The indices differ** exactly if no test row that is kept stands in the file
at the place that the numbering of the variants gives to a variant that is
kept. -/
theorem index_nodup_iff (py : Builtins) {shuffle : List VerlRow → List VerlRow}
    (hshuffle : ∀ rows, (shuffle rows).Perm rows)
    (baseRows : List (List (String × Cell)))
    (variants : List (List (String × Json))) (note : String) :
    let texts := baseTexts py baseRows
    let vars := variantQuestions py variants
    ((buildRoundDataset py shuffle baseRows variants note).map
      (·.index)).Nodup ↔
    ∀ i k q v, FirstAt named texts i q → FirstAt named vars k v → v ∉ texts →
      i ≠ (baseQuestions py baseRows).length + k := by
  intro texts vars
  have hperm : (buildRoundDataset py shuffle baseRows variants note).Perm
      (keptTests py note baseRows ++ keptVariants py note baseRows variants) :=
    buildRoundDataset_perm hshuffle
  have htests : ((keptTests py note baseRows).map (·.index)).Nodup := by
    refine nodup_map_index (testRow note) 0 (fun p => ?_) [] texts
    rw [Nat.zero_add]
    exact index_asPromptRow _ _ _ _ _
  have hvariants : ((keptVariants py note baseRows variants).map
      (·.index)).Nodup := by
    refine nodup_map_index _ (baseQuestions py baseRows).length (fun p => ?_) _
      vars
    exact index_asPromptRow _ _ _ _ _
  rw [(hperm.map VerlRow.index).nodup_iff, List.map_append, List.nodup_append]
  constructor
  · rintro ⟨-, -, hdisjoint⟩ i k q v hi hk hv heq
    have hv' : v ∉ baseQuestions py baseRows :=
      fun hmem => hv (mem_baseQuestions.mp hmem).1
    have htest : testRow note (q, i) ∈ keptTests py note baseRows :=
      mem_keptTests.mpr ⟨i, q, hi, rfl⟩
    have hvariant : variantRow note (baseQuestions py baseRows).length (v, k) ∈
        keptVariants py note baseRows variants :=
      mem_keptVariants.mpr ⟨k, v, hk, hv', rfl⟩
    exact hdisjoint _ (List.mem_map_of_mem htest) _
      (List.mem_map_of_mem hvariant) (congrArg (fun n : ℕ => some (n : ℤ)) heq)
  · intro h
    refine ⟨htests, hvariants, ?_⟩
    intro a ha b hb hab
    obtain ⟨row, hrow, rfl⟩ := List.mem_map.mp ha
    obtain ⟨row', hrow', rfl⟩ := List.mem_map.mp hb
    obtain ⟨i, q, hi, rfl⟩ := mem_keptTests.mp hrow
    obtain ⟨k, v, hk, hv, rfl⟩ := mem_keptVariants.mp hrow'
    have hv' : v ∉ texts := fun hmem => hv (mem_baseQuestions.mpr
      ⟨hmem, of_decide_eq_true hk.2.1⟩)
    exact h i k q v hi hk hv' (Int.ofNat_inj.mp (Option.some.inj hab))

theorem index_nodup_example :
    ((buildRoundDataset Builtins.plain id
      [exampleBaseRow "Is 91 prime?", exampleBaseRow " "] exampleVariants
      "").map (·.index)).Nodup := by
  have hid : ∀ rows : List VerlRow, (id rows).Perm rows := List.Perm.refl
  apply (index_nodup_iff Builtins.plain hid _ exampleVariants "").mpr
  intro i k q v hi _ _
  have htexts : baseTexts Builtins.plain
      [exampleBaseRow "Is 91 prime?", exampleBaseRow " "] =
        ["Is 91 prime?", ""] := by decide +kernel
  have hquestions : baseQuestions Builtins.plain
      [exampleBaseRow "Is 91 prime?", exampleBaseRow " "] =
        ["Is 91 prime?"] := by decide +kernel
  rw [htexts] at hi
  rw [hquestions]
  -- the blank row is behind the other one, which is number 0
  match i, hi with
  | 0, _ => exact Nat.ne_of_lt (Nat.add_pos_left Nat.one_pos k)
  | 1, ⟨hq, hnamed, _⟩ =>
      obtain rfl : "" = q := Option.some.inj hq
      cases hnamed
  | i + 2, ⟨hq, _, _⟩ => simp at hq

/-- A blank test row in front: the row behind it is number 1, and so is the first
variant behind the one test row that is left. -/
theorem index_clash :
    let written := buildRoundDataset Builtins.plain id
      [exampleBaseRow " ", exampleBaseRow "Is 91 prime?"]
      [[("question", .str "Is 93 prime?")]] ""
    ¬ (written.map (·.index)).Nodup ∧
      written.map (fun row => (row.rawQuestion, row.index)) =
        [(some "Is 91 prime?", some 1), (some "Is 93 prime?", some 1)] := by
  decide +kernel

end TTSR.Pipeline
