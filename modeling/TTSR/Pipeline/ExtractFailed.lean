import TTSR.Foundation.Text
import TTSR.Foundation.Value

/-!
# Failed trajectories

`extract_failed` walks the rollout dumps of a training run and keeps the rows
whose score does not exceed the threshold. The uid of a kept row is the uid of
its rollout group if the dump has one, and a name made of the file and the
number of rows kept so far if not. The rows come out in the order of the dump,
cut at the maximal number.
-/

namespace TTSR.Pipeline

open TTSR.Foundation TTSR.Foundation.Text

/-- One `*.jsonl` file of the rollout directory. -/
structure DumpFile where
  stem : String
  path : String
  rows : List (List (String × Json))

/-- One line of `failed_instances.jsonl`. -/
structure FailedInstance where
  uid : String
  question : String
  failedTrace : String
  pseudoTarget : String
  score : PyFloat
  sourceFile : String
deriving DecidableEq

/-- `_extract_question`. -/
def extractQuestion (promptText : String) : String :=
  let text := strip promptText
  if text = "" then "" else
  match beforeFirst "Question:".toList text.toList with
  | some before =>
      strip (String.ofList (text.toList.drop (before.length + 9)))
  | none => text

/-- `str(row.get(key, ""))`. -/
def rowText (py : Builtins) (row : List (String × Json)) (key : String) :
    String :=
  ((Dict.lookupEntries key row).getD (.str "")).toStr py

/-- The uid of a row kept as number `kept`. -/
def rowUid (py : Builtins) (file : DumpFile) (row : List (String × Json))
    (kept : ℕ) : String :=
  if rowText py row "group_uid" = "" then file.stem ++ ":" ++ toString kept
  else rowText py row "group_uid"

/-- One round of the loop of `main`. -/
def extractRow (py : Builtins) (rewardThreshold : ℚ)
    (failed : List FailedInstance)
    (entry : DumpFile × List (String × Json)) :
    Except ErrorKind (List FailedInstance) :=
  (((Dict.lookupEntries "score" entry.2).getD (.float (.fin 0))).toFloat
    py).map fun score =>
      if score.gt rewardThreshold then failed
      else failed ++ [{
        uid := rowUid py entry.1 entry.2 failed.length
        question := extractQuestion (rowText py entry.2 "input")
        failedTrace := rowText py entry.2 "output"
        pseudoTarget := rowText py entry.2 "pseudo_target"
        score
        sourceFile := entry.1.path }]

/-- `extract_failed.main`, on the files in the order of their names. -/
def extractFailed (py : Builtins) (files : List DumpFile) (maxSamples : ℤ)
    (rewardThreshold : ℚ) : Except ErrorKind (List FailedInstance) :=
  ((files.flatMap fun file => file.rows.map (file, ·)).foldlM
    (extractRow py rewardThreshold) []).map (·.take (max 0 maxSamples).toNat)

theorem length_extractFailed_le {py : Builtins} {files : List DumpFile}
    {maxSamples : ℤ} {rewardThreshold : ℚ} {failed : List FailedInstance}
    (h : extractFailed py files maxSamples rewardThreshold = .ok failed) :
    failed.length ≤ (max 0 maxSamples).toNat := by
  rw [extractFailed] at h
  obtain ⟨kept, -, rfl⟩ := map_eq_ok_iff.mp h
  exact List.length_take_le _ _

/-- Every failed instance has a uid. -/
theorem rowUid_ne (py : Builtins) (file : DumpFile)
    (row : List (String × Json)) (kept : ℕ) : rowUid py file row kept ≠ "" := by
  unfold rowUid
  split_ifs with hblank
  · intro hempty
    have hlist := congrArg String.toList hempty
    simp at hlist
  · exact hblank

theorem foldlM_extractRow_uid {py : Builtins} {rewardThreshold : ℚ}
    {entries : List (DumpFile × List (String × Json))}
    {failed failed' : List FailedInstance}
    (h : entries.foldlM (extractRow py rewardThreshold) failed = .ok failed')
    (hfailed : ∀ x ∈ failed, x.uid ≠ "") : ∀ x ∈ failed', x.uid ≠ "" := by
  induction entries generalizing failed with
  | nil =>
      obtain rfl := Except.ok.inj h
      exact hfailed
  | cons entry entries ih =>
      rw [List.foldlM_cons, extractRow] at h
      cases hscore : ((Dict.lookupEntries "score" entry.2).getD
          (.float (.fin 0))).toFloat py with
      | error exc => rw [hscore] at h; cases h
      | ok score =>
          rw [hscore] at h
          refine ih h ?_
          dsimp only
          split_ifs with hgt
          · exact hfailed
          · intro x hx
            rw [List.mem_append, List.mem_singleton] at hx
            rcases hx with hold | rfl
            · exact hfailed x hold
            · exact rowUid_ne py entry.1 entry.2 failed.length

theorem extractFailed_uid {py : Builtins} {files : List DumpFile}
    {maxSamples : ℤ} {rewardThreshold : ℚ} {failed : List FailedInstance}
    (h : extractFailed py files maxSamples rewardThreshold = .ok failed) :
    ∀ x ∈ failed, x.uid ≠ "" := by
  rw [extractFailed] at h
  obtain ⟨kept, hall, rfl⟩ := map_eq_ok_iff.mp h
  intro x hx
  have hnil : ∀ x ∈ ([] : List FailedInstance), x.uid ≠ "" := by simp
  exact foldlM_extractRow_uid hall hnil x (List.mem_of_mem_take hx)

end TTSR.Pipeline
