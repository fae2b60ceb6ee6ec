import Mathlib.Data.List.FinRange
import Mathlib.Logic.Function.Basic
import TTSR.Foundation.Merging
import TTSR.Foundation.Rounding
import TTSR.Pipeline.RoundDataset

/-!
# The split into training and test rows

`prepare_dataset` converts the raw rows, shuffles them, cuts the list in two and
writes the split and the position into the rows of each part. The lists hold
references, so a row that is in both parts is labelled twice: that happens when
nothing is left for the test part and the last row is taken for it.

`split_labelled_iff` says that this is the only case in which the labels of the
two files are wrong, and when it happens.
-/

namespace TTSR.Pipeline

open TTSR.Foundation TTSR.Foundation.Merging TTSR.Foundation.Rounding
  TTSR.Foundation.Text

/-! ## Converting the raw rows -/

/-- `extract_field`. -/
def extractField (row : List (String × Json)) : List String → String
  | [] => ""
  | key :: keys =>
      match Dict.lookupEntries key row with
      | some (.str value) =>
          if strip value ≠ "" then strip value else extractField row keys
      | _ => extractField row keys

/-- The arguments of `prepare_dataset`, the lists of keys already split. -/
structure PrepareConfig where
  questionKeys : List String
  answerKeys : List String
  dataSource : String
  instruction : String
  trainRatio : PyFloat

/-- The loop that makes `converted`. -/
def convert (cfg : PrepareConfig) (rawRows : List (List (String × Json))) :
    List VerlRow :=
  rawRows.zipIdx.filterMap fun p =>
    let question := extractField p.1 cfg.questionKeys
    if question = "" then none
    else some (toVerlRow question (extractField p.1 cfg.answerKeys)
      cfg.dataSource "raw" p.2 cfg.instruction)

/-! ## The cut -/

/-- `rng.shuffle`. -/
structure Shuffle where
  run : ∀ {α : Type}, List α → List α
  perm : ∀ {α : Type} (xs : List α), (run xs).Perm xs

/-- `x < 1.0`, false on NaN. -/
def belowOne : PyFloat → Bool
  | .fin q => decide (q < 1)
  | .inf neg => neg
  | .nan => false

/-- `min(1.0, x)`: the second argument replaces the first only if less. -/
def min1 (x : PyFloat) : PyFloat := if belowOne x then x else .fin 1

/-- `max(0.0, min(1.0, ratio))`, which is always finite (`max0_min1`). -/
def clampRatio (ratio : PyFloat) : ℚ :=
  match PyFloat.max0 (min1 ratio) with
  | .fin q => q
  | _ => 0

/-- `int(len(converted) * max(0.0, min(1.0, args.train_ratio)))`; `round` rounds
to a double. -/
def trainSize (round : ℚ → ℚ) (ratio : PyFloat) (n : ℕ) : ℤ :=
  Json.truncate (round (round n * clampRatio ratio))

/-! ## Labelling -/

/-- The two assignments to `row["extra_info"]`. -/
def VerlRow.label (split : String) (idx : ℕ) (row : VerlRow) : VerlRow :=
  { row with
    extraInfo := Dict.setEntries "index" (.int idx)
      (Dict.setEntries "split" (.str split) row.extraInfo) }

/-- `extra_info.split`. -/
def VerlRow.split (row : VerlRow) : Option String :=
  match Dict.lookupEntries "split" row.extraInfo with
  | some (.str split) => some split
  | _ => none

section Heap

variable {n : ℕ}

/-- One relabelling loop. The rows are objects, and the list refers to them. -/
def relabelFrom (split : String) (start : ℕ) (refs : List (Fin n))
    (heap : Fin n → VerlRow) : Fin n → VerlRow :=
  (refs.zipIdx start).foldl
    (fun heap p => Function.update heap p.1 ((heap p.1).label split p.2)) heap

def relabel (split : String) (refs : List (Fin n)) (heap : Fin n → VerlRow) :
    Fin n → VerlRow :=
  relabelFrom split 0 refs heap

end Heap

/-- `converted[train_size:] or converted[-1:]`. -/
def testPart {α : Type} (size : ℤ) (refs : List α) : List α :=
  match sliceFrom size refs with
  | [] => sliceFrom (-1) refs
  | rest => rest

/-- The rows of `train.parquet` and of `test.parquet`. -/
def prepareDataset (round : ℚ → ℚ) (shuffle : Shuffle) (cfg : PrepareConfig)
    (rawRows : List (List (String × Json))) :
    Except String (List VerlRow × List VerlRow) :=
  let converted := convert cfg rawRows
  if converted = [] then .error "No valid rows found after field mapping." else
  let refs := shuffle.run (List.finRange converted.length)
  let size := trainSize round cfg.trainRatio converted.length
  let trainRows := sliceTo size refs
  let testRows := testPart size refs
  let heap := relabel "test" testRows (relabel "train" trainRows converted.get)
  .ok (trainRows.map heap, testRows.map heap)

/-! ## What labelling does -/

@[simp] theorem index_label (split : String) (idx : ℕ) (row : VerlRow) :
    (row.label split idx).index = some (idx : ℤ) := by
  simp [VerlRow.index, VerlRow.label, Dict.lookupEntries_set_self]

@[simp] theorem split_label (split : String) (idx : ℕ) (row : VerlRow) :
    (row.label split idx).split = some split := by
  have hne : "split" ≠ "index" := by decide
  simp [VerlRow.split, VerlRow.label, Dict.lookupEntries_set_ne hne,
    Dict.lookupEntries_set_self]

section Relabel

variable {n : ℕ} {split : String} {refs : List (Fin n)} {heap : Fin n → VerlRow}
  {r : Fin n}

theorem relabelFrom_of_not_mem {start : ℕ} (h : r ∉ refs) :
    relabelFrom split start refs heap r = heap r := by
  induction refs generalizing start heap with
  | nil => rfl
  | cons r' refs ih =>
      rw [List.mem_cons, not_or] at h
      rw [relabelFrom, List.zipIdx_cons, List.foldl_cons]
      show relabelFrom split (start + 1) refs _ r = heap r
      rw [ih h.2, Function.update_of_ne h.1]

theorem relabelFrom_getElem? {start i : ℕ} (hnodup : refs.Nodup)
    (h : refs[i]? = some r) :
    relabelFrom split start refs heap r = (heap r).label split (start + i) := by
  induction refs generalizing start heap i with
  | nil => simp at h
  | cons r' refs ih =>
      rw [List.nodup_cons] at hnodup
      rw [relabelFrom, List.zipIdx_cons, List.foldl_cons]
      show relabelFrom split (start + 1) refs _ r = _
      cases i with
      | zero =>
          obtain rfl : r' = r := by simpa using h
          rw [relabelFrom_of_not_mem hnodup.1, Function.update_self]
          rfl
      | succ i =>
          rw [List.getElem?_cons_succ] at h
          have hne : r ≠ r' := by
            rintro rfl
            exact hnodup.1 (List.mem_of_getElem? h)
          rw [ih hnodup.2 h, Function.update_of_ne hne]
          congr 1
          omega

/-- A row that is not in the list keeps its labels. -/
theorem relabel_of_not_mem (h : r ∉ refs) :
    relabel split refs heap r = heap r :=
  relabelFrom_of_not_mem h

/-- A row of the list gets the split and its place. -/
theorem relabel_getElem? {i : ℕ} (hnodup : refs.Nodup)
    (h : refs[i]? = some r) :
    relabel split refs heap r = (heap r).label split i := by
  rw [relabel, relabelFrom_getElem? hnodup h, Nat.zero_add]

end Relabel

/-! ## The rows that are written -/

theorem label_toVerlRow (question answer dataSource split split' : String)
    (idx idx' : ℕ) (instruction : String) :
    (toVerlRow question answer dataSource split idx instruction).label split'
      idx' = toVerlRow question answer dataSource split' idx' instruction := by
  simp [VerlRow.label, toVerlRow, Dict.setEntries]

theorem Prepared.label {row : VerlRow} (h : Prepared row) (split : String)
    (idx : ℕ) : Prepared (row.label split idx) := by
  obtain ⟨question, answer, dataSource, split', idx', instruction, rfl⟩ := h
  exact ⟨question, answer, dataSource, split, idx, instruction,
    label_toVerlRow _ _ _ _ _ _ _ _⟩

theorem prepared_of_mem_convert {cfg : PrepareConfig}
    {rawRows : List (List (String × Json))} {row : VerlRow}
    (h : row ∈ convert cfg rawRows) : Prepared row := by
  obtain ⟨p, -, hp⟩ := List.mem_filterMap.mp h
  dsimp only at hp
  split_ifs at hp
  exact ⟨_, _, _, _, _, _, (Option.some.inj hp).symm⟩

theorem prepared_relabelFrom {n : ℕ} {split : String} {refs : List (Fin n)}
    {heap : Fin n → VerlRow} (h : ∀ r, Prepared (heap r)) (start : ℕ)
    (r : Fin n) : Prepared (relabelFrom split start refs heap r) := by
  induction refs generalizing start heap with
  | nil => exact h r
  | cons r' refs ih =>
      rw [relabelFrom, List.zipIdx_cons, List.foldl_cons]
      refine ih (fun r'' => ?_) (start + 1)
      rcases eq_or_ne r'' r' with rfl | hne
      · rw [Function.update_self]
        exact (h r'').label split start
      · rw [Function.update_of_ne hne]
        exact h r''

/-- Every row of the two files is what `to_verl_row` made, up to its labels. -/
theorem prepared_of_prepareDataset {round : ℚ → ℚ} {shuffle : Shuffle}
    {cfg : PrepareConfig} {rawRows : List (List (String × Json))}
    {train test : List VerlRow}
    (h : prepareDataset round shuffle cfg rawRows = .ok (train, test)) :
    ∀ row ∈ train ++ test, Prepared row := by
  rw [prepareDataset] at h
  split_ifs at h
  have hconverted : ∀ r, Prepared ((convert cfg rawRows).get r) :=
    fun r => prepared_of_mem_convert (List.get_mem _ r)
  obtain ⟨rfl, rfl⟩ := Prod.mk.inj (Except.ok.inj h)
  intro row hrow
  rw [← List.map_append] at hrow
  obtain ⟨r, -, rfl⟩ := List.mem_map.mp hrow
  exact prepared_relabelFrom (prepared_relabelFrom hconverted 0) 0 r

/-! ## Consistent labels -/

/-- The rows of a file carry its split and their places. -/
def LabelledBy (split : String) (rows : List VerlRow) : Prop :=
  ∀ (i : ℕ) (row : VerlRow), rows[i]? = some row →
    row.split = some split ∧ row.index = some (i : ℤ)

/-- The two files as `prepare_dataset` means them. -/
structure ConsistentSplit (converted train test : List VerlRow) : Prop where
  trainLabels : LabelledBy "train" train
  testLabels : LabelledBy "test" test
  testNonempty : test ≠ []
  /-- The rows of the files are converted rows up to their labels, and every
  converted row is one of them. -/
  complete : ∃ order, converted.Subperm order ∧
    List.Forall₂ (fun row written => ∃ split idx, written = row.label split idx)
      order (train ++ test)

theorem LabelledBy.split_of_mem {split : String} {rows : List VerlRow}
    (h : LabelledBy split rows) {row : VerlRow} (hrow : row ∈ rows) :
    row.split = some split := by
  obtain ⟨i, hi⟩ := List.getElem?_of_mem hrow
  exact (h i row hi).1

section Split

variable {n : ℕ} {refs : List (Fin n)} {heap : Fin n → VerlRow}

theorem labelledBy_map {split : String} {written : Fin n → VerlRow}
    (h : ∀ (i : ℕ) (r : Fin n), refs[i]? = some r →
      ∃ row : VerlRow, written r = row.label split i) :
    LabelledBy split (refs.map written) := by
  intro i row hrow
  rw [List.getElem?_map] at hrow
  obtain ⟨r, hr, rfl⟩ := Option.map_eq_some_iff.mp hrow
  obtain ⟨row, hlabel⟩ := h i r hr
  rw [hlabel]
  exact ⟨split_label _ _ _, index_label _ _ _⟩

/-- Disjoint parts are labelled consistently. -/
theorem consistentSplit_of_disjoint (heap : Fin n → VerlRow)
    {train test : List (Fin n)} (hnodup : (train ++ test).Nodup)
    (hall : (List.finRange n).Perm (train ++ test)) (htest : test ≠ []) :
    let written := relabel "test" test (relabel "train" train heap)
    ConsistentSplit ((List.finRange n).map heap) (train.map written)
      (test.map written) := by
  intro written
  obtain ⟨htrainNodup, htestNodup, hdisjoint⟩ := List.nodup_append.mp hnodup
  have htrain : ∀ (i : ℕ) (r : Fin n), train[i]? = some r →
      written r = (heap r).label "train" i := by
    intro i r hr
    have hnot : r ∉ test := fun hmem =>
      hdisjoint r (List.mem_of_getElem? hr) r hmem rfl
    rw [show written r = _ from relabel_of_not_mem hnot,
      relabel_getElem? htrainNodup hr]
  have htest' : ∀ (i : ℕ) (r : Fin n), test[i]? = some r →
      written r = (heap r).label "test" i := by
    intro i r hr
    have hnot : r ∉ train := fun hmem =>
      hdisjoint r hmem r (List.mem_of_getElem? hr) rfl
    rw [show written r = _ from relabel_getElem? htestNodup hr,
      relabel_of_not_mem hnot]
  constructor
  case trainLabels => exact labelledBy_map fun i r hr => ⟨_, htrain i r hr⟩
  case testLabels => exact labelledBy_map fun i r hr => ⟨_, htest' i r hr⟩
  case testNonempty => simpa using htest
  case complete =>
    refine ⟨(train ++ test).map heap, (hall.map heap).subperm, ?_⟩
    rw [← List.map_append, List.forall₂_map_left_iff, List.forall₂_map_right_iff,
      List.forall₂_same]
    intro r hr
    rcases List.mem_append.mp hr with hr | hr
    · obtain ⟨i, hi⟩ := List.getElem?_of_mem hr
      exact ⟨_, _, htrain i r hi⟩
    · obtain ⟨i, hi⟩ := List.getElem?_of_mem hr
      exact ⟨_, _, htest' i r hi⟩

theorem split_relabel_of_mem {split : String} (hnodup : refs.Nodup) {r : Fin n}
    (hr : r ∈ refs) : (relabel split refs heap r).split = some split := by
  obtain ⟨i, hi⟩ := List.getElem?_of_mem hr
  rw [relabel_getElem? hnodup hi, split_label]

end Split

/-! ## The cut and the ratio -/

theorem max0_min1 (ratio : PyFloat) :
    PyFloat.max0 (min1 ratio) = .fin (clampRatio ratio) := by
  have hfinite : ∃ q, PyFloat.max0 (min1 ratio) = .fin q := by
    unfold PyFloat.max0 min1
    cases ratio with
    | fin q => split_ifs <;> exact ⟨_, rfl⟩
    | inf neg => cases neg <;> exact ⟨_, rfl⟩
    | nan => exact ⟨1, rfl⟩
  obtain ⟨q, hq⟩ := hfinite
  rw [clampRatio, hq]

theorem clampRatio_of_not_belowOne {ratio : PyFloat}
    (h : belowOne ratio = false) : clampRatio ratio = 1 := by
  have hmin : min1 ratio = .fin 1 := if_neg (by simp [h])
  rw [clampRatio, hmin]
  rfl

/-- A ratio below one is clamped to a double from zero on, and below one. -/
theorem clampRatio_of_belowOne {ratio : PyFloat} (h : belowOne ratio = true)
    (hdouble : ∀ q, ratio = .fin q → IsDouble q) :
    IsDouble (clampRatio ratio) ∧ 0 ≤ clampRatio ratio ∧ clampRatio ratio < 1 := by
  have hmin : min1 ratio = ratio := if_pos h
  have hzero : IsDouble 0 := by exact_mod_cast isDouble_natCast (Nat.zero_le _)
  rw [clampRatio, hmin, PyFloat.max0]
  cases ratio with
  | fin q =>
      by_cases hpos : 0 < q
      · have hgt : PyFloat.gt 0 (.fin q) = true := decide_eq_true hpos
        rw [if_pos hgt]
        exact ⟨hdouble q rfl, hpos.le, of_decide_eq_true h⟩
      · have hgt : PyFloat.gt 0 (.fin q) = false := decide_eq_false hpos
        rw [hgt]
        exact ⟨hzero, le_refl _, one_pos⟩
  | inf neg =>
      obtain rfl : neg = true := h
      exact ⟨hzero, le_refl _, one_pos⟩
  | nan => cases h

theorem truncate_lt_iff {q : ℚ} {n : ℕ} (hn : 0 < n) :
    Json.truncate q < n ↔ q < n := by
  unfold Json.truncate
  split_ifs with hq
  · exact_mod_cast Int.floor_lt
  · have hneg : q < 0 := lt_of_not_ge hq
    have hn' : (0 : ℚ) < n := by exact_mod_cast hn
    have hceil : ⌈q⌉ ≤ 0 := Int.ceil_le.mpr (by exact_mod_cast hneg.le)
    exact iff_of_true (by omega) (hneg.trans hn')

/-- Up to 53 bits, rounding does not fill the training part. -/
theorem trainSize_lt_iff {round : ℚ → ℚ} (hround : RoundsToNearest round)
    {ratio : PyFloat} (hdouble : ∀ q, ratio = .fin q → IsDouble q) {n : ℕ}
    (hpos : 0 < n) (hn : n ≤ 2 ^ 53) :
    trainSize round ratio n < n ↔ belowOne ratio = true := by
  rw [trainSize, truncate_lt_iff hpos, round_natCast hround hn]
  cases h : belowOne ratio with
  | true =>
      obtain ⟨hr, hnonneg, hlt⟩ := clampRatio_of_belowOne h hdouble
      exact iff_of_true (round_mul_lt hround hpos hn hr hnonneg hlt) rfl
  | false =>
      rw [clampRatio_of_not_belowOne h, mul_one, round_natCast hround hn]
      simp

/-! ## The two files -/

theorem convert_ne_nil {cfg : PrepareConfig}
    {rawRows : List (List (String × Json))}
    (husable : ∃ row ∈ rawRows, extractField row cfg.questionKeys ≠ "") :
    convert cfg rawRows ≠ [] := by
  obtain ⟨row, hrow, hquestion⟩ := husable
  obtain ⟨i, hi⟩ := List.getElem?_of_mem hrow
  have hmem : (row, i) ∈ rawRows.zipIdx := List.mem_zipIdx_iff_getElem?.mpr hi
  exact List.ne_nil_of_mem (List.mem_filterMap.mpr ⟨_, hmem, if_neg hquestion⟩)

section Parts

variable {α : Type} {refs : List α}

/-- With something left, the parts are a prefix and the rest. -/
theorem testPart_of_lt {size : ℤ} (hne : refs ≠ []) (h : size < refs.length) :
    testPart size refs ≠ [] ∧ sliceTo size refs ++ testPart size refs = refs := by
  obtain ⟨k, hto, hfrom, hk⟩ := exists_slice_eq hne size
  have hdrop : refs.drop k ≠ [] := by
    rw [Ne, List.drop_eq_nil_iff]
    exact Nat.not_le_of_lt (hk.mpr h)
  have hpart : testPart size refs = refs.drop k := by
    rw [testPart, hfrom]
    split
    · next hnil => exact absurd hnil hdrop
    · rfl
  rw [hpart, hto]
  exact ⟨hdrop, List.take_append_drop k refs⟩

/-- With nothing left, all of the list is in the first part, and its last element
is the second one. -/
theorem testPart_of_le {size : ℤ} (hne : refs ≠ []) (h : refs.length ≤ size) :
    sliceTo size refs = refs ∧ testPart size refs = [refs.getLast hne] := by
  obtain ⟨k, hto, hfrom, hk⟩ := exists_slice_eq hne size
  have hlong : refs.length ≤ k :=
    Nat.le_of_not_lt fun hlt => absurd (hk.mp hlt) (not_lt_of_ge h)
  have hlast : sliceFrom (-1) refs = [refs.getLast hne] := by
    have hpos := List.length_pos_of_ne_nil hne
    have hplace : ((refs.length : ℤ) + -1).toNat = refs.length - 1 := by omega
    rw [sliceFrom, if_neg (by decide), hplace, List.drop_length_sub_one hne]
  rw [hto, testPart, hfrom, List.drop_eq_nil_iff.mpr hlong]
  exact ⟨List.take_of_length_le hlong, hlast⟩

end Parts

section Cut

variable {converted : List VerlRow} {refs : List (Fin converted.length)}

/-- The rows after both loops. -/
def relabelled (refs : List (Fin converted.length)) (size : ℤ) :
    Fin converted.length → VerlRow :=
  relabel "test" (testPart size refs)
    (relabel "train" (sliceTo size refs) converted.get)

/-- With nothing left behind the cut the last row is labelled as a test row. -/
theorem exists_split_test {size : ℤ} (hne : refs ≠ [])
    (hle : refs.length ≤ size) :
    ∃ row ∈ (sliceTo size refs).map (relabelled refs size),
      row.split = some "test" := by
  obtain ⟨htrain, htest⟩ := testPart_of_le hne hle
  have hmem : refs.getLast hne ∈ sliceTo size refs := by
    rw [htrain]
    exact List.getLast_mem hne
  refine ⟨_, List.mem_map_of_mem hmem, ?_⟩
  rw [relabelled, htest]
  exact split_relabel_of_mem (List.nodup_singleton _) (List.mem_singleton_self _)

/-- Wherever the list is cut, the labels are consistent exactly if something is
left behind the cut. -/
theorem consistentSplit_iff
    (hperm : refs.Perm (List.finRange converted.length)) (hne : refs ≠ [])
    (size : ℤ) :
    ConsistentSplit converted
        ((sliceTo size refs).map (relabelled refs size))
        ((testPart size refs).map (relabelled refs size)) ↔
      size < converted.length := by
  have hlength : refs.length = converted.length := by
    rw [hperm.length_eq, List.length_finRange]
  have hnodup : refs.Nodup := hperm.nodup_iff.mpr (List.nodup_finRange _)
  by_cases hlt : size < refs.length
  · refine iff_of_true ?_ (hlength ▸ hlt)
    obtain ⟨htest, hparts⟩ := testPart_of_lt hne hlt
    have hall : (List.finRange converted.length).map converted.get =
        converted := by rw [← List.ofFn_eq_map, List.ofFn_get]
    have hsplit := consistentSplit_of_disjoint converted.get
      (by rw [hparts]; exact hnodup) (by rw [hparts]; exact hperm.symm) htest
    rwa [hall] at hsplit
  · refine iff_of_false (fun hsplit => ?_) (hlength ▸ hlt)
    obtain ⟨row, hrow, htest⟩ := exists_split_test hne (not_lt.mp hlt)
    have htrain := hsplit.trainLabels.split_of_mem hrow
    rw [htest] at htrain
    exact absurd htrain (by decide)

end Cut

/-- What the program writes, for raw rows with a question. -/
theorem exists_prepareDataset (round : ℚ → ℚ) (shuffle : Shuffle)
    {cfg : PrepareConfig} {rawRows : List (List (String × Json))}
    (hconverted : convert cfg rawRows ≠ []) :
    let converted := convert cfg rawRows
    let size := trainSize round cfg.trainRatio converted.length
    ∃ train test,
      prepareDataset round shuffle cfg rawRows = .ok (train, test) ∧
      (ConsistentSplit converted train test ↔ size < converted.length) ∧
      (converted.length ≤ size → ∃ row ∈ train, row.split = some "test") := by
  intro converted size
  have hpos : 0 < converted.length := List.length_pos_of_ne_nil hconverted
  have hperm := shuffle.perm (List.finRange converted.length)
  have hlength : (shuffle.run (List.finRange converted.length)).length =
      converted.length := by rw [hperm.length_eq, List.length_finRange]
  have hne : shuffle.run (List.finRange converted.length) ≠ [] :=
    List.ne_nil_of_length_pos (by omega)
  refine ⟨_, _, if_neg hconverted, consistentSplit_iff hperm hne size, ?_⟩
  intro hle
  exact exists_split_test hne (by rw [hlength]; exact hle)

/-- The rows up to the cut are in the first file, the others in the second. -/
theorem lengths_prepareDataset {round : ℚ → ℚ} {shuffle : Shuffle}
    {cfg : PrepareConfig} {rawRows : List (List (String × Json))}
    {train test : List VerlRow}
    (h : prepareDataset round shuffle cfg rawRows = .ok (train, test)) {size : ℕ}
    (hsize : trainSize round cfg.trainRatio (convert cfg rawRows).length = size)
    (hlt : size < (convert cfg rawRows).length) :
    train.length = size ∧ test.length = (convert cfg rawRows).length - size := by
  have hlength := (shuffle.perm
    (List.finRange (convert cfg rawRows).length)).length_eq
  rw [List.length_finRange] at hlength
  have hne : shuffle.run (List.finRange (convert cfg rawRows).length) ≠ [] :=
    List.ne_nil_of_length_pos (by omega)
  have hless : (size : ℤ) <
      (shuffle.run (List.finRange (convert cfg rawRows).length)).length := by
    omega
  obtain ⟨-, hparts⟩ := testPart_of_lt hne hless
  have hcut : (sliceTo (size : ℤ)
      (shuffle.run (List.finRange (convert cfg rawRows).length))).length =
        size := by
    rw [sliceTo, if_pos (Int.natCast_nonneg _), List.length_take]
    omega
  have hsum := congrArg List.length hparts
  rw [List.length_append, hcut, hlength] at hsum
  have hconverted : convert cfg rawRows ≠ [] :=
    List.ne_nil_of_length_pos (by omega)
  rw [prepareDataset] at h
  simp only [if_neg hconverted, hsize] at h
  cases h
  rw [List.length_map, List.length_map, hcut]
  exact ⟨rfl, by omega⟩

/-- **The files are labelled consistently** exactly if the training part leaves
something for the test part; up to 53 bits, if the ratio is less than one. -/
theorem split_labelled_iff {round : ℚ → ℚ} (hround : RoundsToNearest round)
    (shuffle : Shuffle) (cfg : PrepareConfig)
    (hdouble : ∀ q, cfg.trainRatio = .fin q → IsDouble q)
    (rawRows : List (List (String × Json)))
    (husable : ∃ row ∈ rawRows, extractField row cfg.questionKeys ≠ "") :
    let converted := convert cfg rawRows
    ∃ train test,
      prepareDataset round shuffle cfg rawRows = .ok (train, test) ∧
      (ConsistentSplit converted train test ↔
        trainSize round cfg.trainRatio converted.length < converted.length) ∧
      (converted.length ≤ 2 ^ 53 →
        (ConsistentSplit converted train test ↔
          belowOne cfg.trainRatio = true)) := by
  intro converted
  have hconverted : converted ≠ [] := convert_ne_nil husable
  obtain ⟨train, test, hok, hiff, -⟩ :=
    exists_prepareDataset round shuffle hconverted
  refine ⟨train, test, hok, hiff, fun hn => ?_⟩
  exact hiff.trans (trainSize_lt_iff hround hdouble
    (List.length_pos_of_ne_nil hconverted) hn)

/-- A shuffle that leaves everything at its place. -/
def inOrder : Shuffle := ⟨fun xs => xs, List.Perm.refl⟩

def examplePrepare (trainRatio : PyFloat) : PrepareConfig where
  questionKeys := ["question", "problem"]
  answerKeys := ["answer", "solution", "ground_truth"]
  dataSource := "ttsr_custom"
  instruction := "Think."
  trainRatio

def exampleRawRows : List (List (String × Json)) :=
  [[("problem", .str " Is 91 prime?"), ("answer", .str "no")]]

/-- Two rows with a question, and one without. -/
def exampleRawPair : List (List (String × Json)) :=
  exampleRawRows ++
    [[("question", .str " ")], [("question", .str "2+2?"), ("answer", .int 4)]]

theorem split_labelled_example :
    ∃ round train test, RoundsToNearest round ∧
      prepareDataset round inOrder (examplePrepare (.fin (1 / 2)))
        exampleRawPair = .ok (train, test) ∧
      train.length = 1 ∧ test.length = 1 ∧
      ConsistentSplit (convert (examplePrepare (.fin (1 / 2))) exampleRawPair)
        train test := by
  obtain ⟨round, hround⟩ := exists_roundsToNearest
  have hhalf : IsDouble (1 / 2) :=
    ⟨1, -1, by norm_num, by norm_num, by norm_num, by norm_num⟩
  have husable : ∃ row ∈ exampleRawPair,
      extractField row ["question", "problem"] ≠ "" := by decide +kernel
  obtain ⟨train, test, hok, -, hiff⟩ := split_labelled_iff hround inOrder
    (examplePrepare (.fin (1 / 2)))
    (fun q hq => by cases hq; exact hhalf) exampleRawPair husable
  have hlength : (convert (examplePrepare (.fin (1 / 2))) exampleRawPair).length
      = 2 := by decide +kernel
  have hsize : trainSize round (.fin (1 / 2)) 2 = (1 : ℕ) := by
    have hclamp : clampRatio (.fin (1 / 2)) = 1 / 2 := by decide +kernel
    have hrows : ((2 : ℕ) : ℚ) * (1 / 2) = (1 : ℕ) := by norm_num
    rw [trainSize, round_natCast hround (by norm_num), hclamp, hrows,
      round_natCast hround (by norm_num)]
    decide +kernel
  have hlengths := lengths_prepareDataset hok (by rw [hlength]; exact hsize)
    (by omega)
  rw [hlength] at hlengths hiff
  exact ⟨round, train, test, hround, hok, hlengths.1, hlengths.2,
    (hiff (by norm_num)).mpr (by decide +kernel)⟩

/-- With ratio one the only row is in both files, and the training file says that
it is a test row. -/
theorem split_mislabelled :
    ∃ round train test, RoundsToNearest round ∧
      prepareDataset round inOrder (examplePrepare (.fin 1)) exampleRawRows =
        .ok (train, test) ∧
      (∃ row ∈ train, row.split = some "test") ∧
      ¬ ConsistentSplit (convert (examplePrepare (.fin 1)) exampleRawRows)
        train test := by
  obtain ⟨round, hround⟩ := exists_roundsToNearest
  have hlength : (convert (examplePrepare (.fin 1)) exampleRawRows).length = 1 := by
    decide +kernel
  have hone : ∀ q, PyFloat.fin 1 = .fin q → IsDouble q := by
    intro q hq
    cases hq
    exact_mod_cast isDouble_natCast (n := 1) (by norm_num)
  obtain ⟨train, test, hok, hiff, hlast⟩ := exists_prepareDataset round inOrder
    (List.ne_nil_of_length_pos (by omega) :
      convert (examplePrepare (.fin 1)) exampleRawRows ≠ [])
  have hsize := trainSize_lt_iff hround hone Nat.one_pos (by norm_num)
  rw [hlength] at hiff hlast
  have hfull : ¬ trainSize round (.fin 1) 1 < (1 : ℕ) :=
    hsize.not.mpr (by decide +kernel)
  exact ⟨round, train, test, hround, hok, hlast (not_lt.mp hfull),
    hiff.not.mpr hfull⟩

end TTSR.Pipeline
