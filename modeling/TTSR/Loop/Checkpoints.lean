import Mathlib.Data.List.Infix
import Mathlib.Data.Set.List
import TTSR.Foundation.Text
import TTSR.Foundation.VersionSort
import TTSR.Loop.EvaluatorLifecycle

/-!
# Checkpoints

What the checkpoint manager of the trainer writes under a checkpoint root, and
which directory `pick_latest_actor_model` makes of it.

The manager creates `actor/huggingface` for the config and the tokenizer in
every checkpoint, and puts model weights there only if `hf_model` is among the
contents to save. So the test for the directory always succeeds, and the
directory that is picked is the newest one, but it holds a model exactly if
`hf_model` is saved (`picked_models_loadable_iff`).
-/

namespace TTSR.Loop

open TTSR.Foundation TTSR.Foundation.VersionSort

/-! ## The checkpoint manager -/

/-- What a file of a checkpoint holds. -/
inductive FileKind where
  | modelShard (rank : ℕ)
  | optimShard (rank : ℕ)
  | extraState (rank : ℕ)
  | generationConfig
  | modelConfig
  | processingClass
  | customObject
  | fsdpConfig
  /-- `save_model.save_pretrained`. -/
  | modelWeights
  | dataloader
deriving DecidableEq

/-- The directories under a checkpoint root, each as the names on the way to
it, and the files in them. -/
structure Disk where
  dirs : List (List String)
  files : List (List String × FileKind)

/-- Create a directory and those above it, where they do not exist. -/
def Disk.mkdir (disk : Disk) (dir : List String) : Disk :=
  { disk with dirs := dir.inits.filter (· ≠ []) ∪ disk.dirs }

def Disk.write (disk : Disk) (files : List (List String × FileKind)) : Disk :=
  { disk with files := files ∪ disk.files }

def Disk.rmtree (disk : Disk) (dir : List String) : Disk where
  dirs := disk.dirs.filter fun d => ¬ dir <+: d
  files := disk.files.filter fun f => ¬ dir <+: f.1

/-- The actor that is saved, and the settings of its checkpoints. -/
structure Actor where
  worldSize : ℕ
  saveContents : List String
  maxCkptToKeep : Option ℕ
  /-- A generation config is found. -/
  generationConfig : Bool
  /-- There is a tokenizer or a processor. -/
  processingClass : Bool
  /-- The config has an `auto_map`. -/
  autoMap : Bool

/-- The manager, with the disk it writes to. -/
structure CheckpointManager where
  disk : Disk
  previousSavedPaths : List (List String)

variable (a : Actor)

/-- The files of one rank. -/
def shardFiles (localPath : List String) (rank : ℕ) :
    List (List String × FileKind) :=
  (if "model" ∈ a.saveContents then [(localPath, .modelShard rank)] else []) ++
    (if "optimizer" ∈ a.saveContents then [(localPath, .optimShard rank)]
      else []) ++
    (if "extra" ∈ a.saveContents then [(localPath, .extraState rank)] else [])

/-- What rank 0 writes whatever the contents to save are. -/
def configFiles (localPath : List String) : List (List String × FileKind) :=
  let hf := localPath ++ ["huggingface"]
  (if a.generationConfig then [(hf, .generationConfig)] else []) ++
    [(hf, .modelConfig)] ++
    (if a.processingClass then [(hf, .processingClass)] else []) ++
    (if a.autoMap then [(hf, .customObject)] else []) ++
    [(localPath, .fsdpConfig)]

def hfModelFiles (localPath : List String) : List (List String × FileKind) :=
  if "hf_model" ∈ a.saveContents then
    [(localPath ++ ["huggingface"], .modelWeights)]
  else []

/-- Forget the `count` oldest checkpoints and remove them from the disk. -/
def CheckpointManager.removeOldest (m : CheckpointManager) (count : ℕ) :
    CheckpointManager where
  disk := (m.previousSavedPaths.take count).foldl Disk.rmtree m.disk
  previousSavedPaths := m.previousSavedPaths.drop count

/-- `ensure_checkpoint_capacity`. -/
def ensureCheckpointCapacity (m : CheckpointManager) : CheckpointManager :=
  match a.maxCkptToKeep with
  | none => m
  | some keep =>
      if 1 < keep ∧ keep ≤ m.previousSavedPaths.length then
        m.removeOldest (m.previousSavedPaths.length - keep + 1)
      else m

/-- `register_checkpoint`. -/
def registerCheckpoint (newPath : List String) (m : CheckpointManager) :
    CheckpointManager :=
  let m := { m with previousSavedPaths := m.previousSavedPaths ++ [newPath] }
  match a.maxCkptToKeep with
  | none => m
  | some keep =>
      if 0 < keep ∧ keep < m.previousSavedPaths.length then
        m.removeOldest (m.previousSavedPaths.length - keep)
      else m

/-- The directories and files of one checkpoint, from all ranks. -/
def writeCheckpoint (localPath : List String) (disk : Disk) : Disk :=
  let disk := disk.mkdir localPath
  let disk := disk.write
    ((List.range a.worldSize).flatMap (shardFiles a localPath))
  let disk := disk.mkdir (localPath ++ ["huggingface"])
  let disk := disk.write (configFiles a localPath)
  disk.write (hfModelFiles a localPath)

/-- `FSDPCheckpointManager.save_checkpoint`. -/
def saveCheckpoint (localPath : List String) (m : CheckpointManager) :
    CheckpointManager :=
  let m := ensureCheckpointCapacity a m
  registerCheckpoint a localPath
    { m with disk := writeCheckpoint a localPath m.disk }

def globalStep (k : ℕ) : String := "global_step_" ++ toString k

/-- `_save_checkpoint` of the trainer at step `k`, which has no critic. -/
def saveStep (m : CheckpointManager) (k : ℕ) : CheckpointManager :=
  let m := saveCheckpoint a [globalStep k, "actor"] m
  { m with disk :=
    (m.disk.mkdir [globalStep k]).write [([globalStep k], .dataloader)] }

/-- A training run that saves at the given steps. -/
def trainingRun (steps : List ℕ) : CheckpointManager :=
  steps.foldl (saveStep a) ⟨⟨[], []⟩, []⟩

/-! ## The choice of the loop -/

/-- The path of a directory under `root`. -/
def dirPath (root : String) (dir : List String) : String :=
  dir.foldl (fun path name => path ++ "/" ++ name) root

/-- `ls -d "${ckpt_root}"/global_step_*`, one path a line. -/
def listSteps (root : String) (dirs : List (List String)) : List String :=
  dirs.filterMap fun
    | [name] =>
        if "global_step_".toList <+: name.toList then some (root ++ "/" ++ name)
        else none
    | _ => none

/-- `pick_latest_actor_model`; empty if there is no checkpoint. -/
def pickLatestActorModel (ckptRoot : String) (dirs : List (List String)) :
    String :=
  let isDir (path : String) : Bool := path ∈ dirs.map (dirPath ckptRoot)
  match (versionSort (listSteps ckptRoot dirs)).getLast? with
  | none => ""
  | some latestStepDir =>
      if isDir (latestStepDir ++ "/actor/huggingface") then
        latestStepDir ++ "/actor/huggingface"
      else if isDir (latestStepDir ++ "/actor") then latestStepDir ++ "/actor"
      else ""

/-- The path is a directory of the checkpoint with the largest step, and model
weights are in it. -/
def NewestLoadable (root : String) (steps : List ℕ) (disk : Disk)
    (path : String) : Prop :=
  ∃ k ∈ steps, (∀ j ∈ steps, j ≤ k) ∧
    ∃ rest, path = dirPath root (globalStep k :: rest) ∧
      (globalStep k :: rest, .modelWeights) ∈ disk.files

/-! ## What a run leaves on the disk -/

section Disk

variable {disk : Disk} {d dir : List String} {files : List (List String × FileKind)}

theorem mem_mkdir : d ∈ (disk.mkdir dir).dirs ↔
    (d ≠ [] ∧ d <+: dir) ∨ d ∈ disk.dirs := by
  rw [Disk.mkdir, List.mem_union_iff, List.mem_filter, List.mem_inits,
    decide_eq_true_eq, and_comm]

@[simp] theorem mkdir_files : (disk.mkdir dir).files = disk.files := rfl

@[simp] theorem write_dirs : (disk.write files).dirs = disk.dirs := rfl

theorem mem_write {f : List String × FileKind} :
    f ∈ (disk.write files).files ↔ f ∈ files ∨ f ∈ disk.files := by
  rw [Disk.write, List.mem_union_iff]

theorem mem_dirs_rmtree (paths : List (List String)) :
    d ∈ (paths.foldl Disk.rmtree disk).dirs ↔
      d ∈ disk.dirs ∧ ∀ p ∈ paths, ¬ p <+: d := by
  induction paths generalizing disk with
  | nil => simp
  | cons p paths ih =>
      rw [List.foldl_cons, ih, List.forall_mem_cons]
      simp [Disk.rmtree, and_assoc]

theorem mem_files_rmtree {f : List String × FileKind}
    (paths : List (List String)) :
    f ∈ (paths.foldl Disk.rmtree disk).files ↔
      f ∈ disk.files ∧ ∀ p ∈ paths, ¬ p <+: f.1 := by
  induction paths generalizing disk with
  | nil => simp
  | cons p paths ih =>
      rw [List.foldl_cons, ih, List.forall_mem_cons]
      simp [Disk.rmtree, and_assoc]

end Disk

section Run

variable {a : Actor} {m : CheckpointManager} {disk : Disk} {done : List ℕ}
  {j k : ℕ} {d localPath : List String}

theorem globalStep_inj : globalStep j = globalStep k ↔ j = k := by
  rw [globalStep, globalStep, String.append_right_inj, Text.toString_nat_inj]

theorem mem_dirs_writeCheckpoint :
    d ∈ (writeCheckpoint a localPath disk).dirs ↔
      (d ≠ [] ∧ d <+: localPath ++ ["huggingface"]) ∨ d ∈ disk.dirs := by
  simp only [writeCheckpoint, write_dirs, mem_mkdir]
  constructor
  · rintro (hhf | ⟨hne, hlocal⟩ | hold)
    · exact .inl hhf
    · exact .inl ⟨hne, hlocal.trans (List.prefix_append _ _)⟩
    · exact .inr hold
  · rintro (hhf | hold)
    · exact .inl hhf
    · exact .inr (.inr hold)

/-- The config and the shards are no model weights. -/
theorem modelWeights_notMem_shardFiles (rank : ℕ) :
    (d, .modelWeights) ∉ shardFiles a localPath rank := by
  unfold shardFiles
  split_ifs <;> simp

theorem modelWeights_notMem_configFiles :
    (d, .modelWeights) ∉ configFiles a localPath := by
  unfold configFiles
  split_ifs <;> simp

/-- A checkpoint adds model weights in one place, if they are to be saved. -/
theorem modelWeights_mem_writeCheckpoint :
    (d, .modelWeights) ∈ (writeCheckpoint a localPath disk).files ↔
      ("hf_model" ∈ a.saveContents ∧ d = localPath ++ ["huggingface"]) ∨
        (d, .modelWeights) ∈ disk.files := by
  simp only [writeCheckpoint, mem_write, mkdir_files]
  have hshards : (d, .modelWeights) ∉
      (List.range a.worldSize).flatMap (shardFiles a localPath) := by
    intro hmem
    obtain ⟨rank, -, hrank⟩ := List.mem_flatMap.mp hmem
    exact modelWeights_notMem_shardFiles rank hrank
  have hhf : (d, .modelWeights) ∈ hfModelFiles a localPath ↔
      "hf_model" ∈ a.saveContents ∧ d = localPath ++ ["huggingface"] := by
    unfold hfModelFiles
    split_ifs with hcontents
    · simp [hcontents]
    · simp [hcontents]
  rw [hhf]
  simp [hshards, modelWeights_notMem_configFiles]

/-- The disk of a run that has saved at the steps `done`. -/
structure RunInv (a : Actor) (done : List ℕ) (m : CheckpointManager) :
    Prop where
  steps : ∀ name, [name] ∈ m.disk.dirs ↔ ∃ k ∈ done, name = globalStep k
  saved : ∀ p ∈ m.previousSavedPaths, ∃ k ∈ done, p = [globalStep k, "actor"]
  weights : ∀ d, (d, .modelWeights) ∈ m.disk.files →
    "hf_model" ∈ a.saveContents

/-- The model directory of step `k` is there, with the weights if they are
saved. -/
structure Complete (a : Actor) (k : ℕ) (disk : Disk) : Prop where
  dir : [globalStep k, "actor", "huggingface"] ∈ disk.dirs
  weights : "hf_model" ∈ a.saveContents →
    ([globalStep k, "actor", "huggingface"], .modelWeights) ∈ disk.files

/-- Removing old checkpoints leaves the directories of their steps. -/
theorem RunInv.removeOldest (h : RunInv a done m) (count : ℕ) :
    RunInv a done (m.removeOldest count) := by
  constructor
  case steps =>
    intro name
    rw [CheckpointManager.removeOldest, mem_dirs_rmtree, ← h.steps]
    apply and_iff_left_of_imp
    intro _ p hp hprefix
    obtain ⟨j, -, rfl⟩ := h.saved p (List.mem_of_mem_take hp)
    exact absurd hprefix.length_le (by simp)
  case saved =>
    intro p hp
    exact h.saved p (List.mem_of_mem_drop hp)
  case weights =>
    intro d hd
    exact h.weights d ((mem_files_rmtree _).mp hd).1

/-- A checkpoint survives the removal of others. -/
theorem Complete.removeOldest {count : ℕ} (h : Complete a k m.disk)
    (hold : ∀ p ∈ m.previousSavedPaths.take count,
      ∃ j, j ≠ k ∧ p = [globalStep j, "actor"]) :
    Complete a k (m.removeOldest count).disk := by
  have hkept : ∀ p ∈ m.previousSavedPaths.take count,
      ¬ p <+: [globalStep k, "actor", "huggingface"] := by
    intro p hp hprefix
    obtain ⟨j, hne, rfl⟩ := hold p hp
    exact hne (globalStep_inj.mp (List.cons_prefix_cons.mp hprefix).1)
  constructor
  case dir => exact (mem_dirs_rmtree _).mpr ⟨h.dir, hkept⟩
  case weights =>
    intro hcontents
    exact (mem_files_rmtree _).mpr ⟨h.weights hcontents, hkept⟩

theorem RunInv.ensureCheckpointCapacity (h : RunInv a done m) :
    RunInv a done (ensureCheckpointCapacity a m) := by
  unfold Loop.ensureCheckpointCapacity
  split
  · exact h
  · split_ifs
    · exact h.removeOldest _
    · exact h

/-- Writing a checkpoint completes it. -/
theorem RunInv.writeCheckpoint (h : RunInv a done m) :
    let p := [globalStep k, "actor"]
    let m' : CheckpointManager := ⟨writeCheckpoint a p m.disk,
      m.previousSavedPaths ++ [p]⟩
    RunInv a (done ++ [k]) m' ∧ Complete a k m'.disk := by
  intro p m'
  constructor
  · constructor
    case steps =>
      intro name
      rw [mem_dirs_writeCheckpoint, h.steps]
      constructor
      · rintro (⟨-, hprefix⟩ | ⟨j, hj, rfl⟩)
        · exact ⟨k, List.mem_append_right _ (List.mem_singleton_self k),
            (List.cons_prefix_cons.mp hprefix).1⟩
        · exact ⟨j, List.mem_append_left _ hj, rfl⟩
      · rintro ⟨j, hj, rfl⟩
        rcases List.mem_append.mp hj with hj | hj
        · exact .inr ⟨j, hj, rfl⟩
        · obtain rfl := List.mem_singleton.mp hj
          refine .inl ⟨List.cons_ne_nil _ _, ?_⟩
          exact List.cons_prefix_cons.mpr ⟨rfl, List.nil_prefix⟩
    case saved =>
      intro q hq
      rcases List.mem_append.mp hq with hq | hq
      · obtain ⟨j, hj, rfl⟩ := h.saved q hq
        exact ⟨j, List.mem_append_left _ hj, rfl⟩
      · obtain rfl := List.mem_singleton.mp hq
        exact ⟨k, List.mem_append_right _ (List.mem_singleton_self k), rfl⟩
    case weights =>
      intro d hd
      rcases modelWeights_mem_writeCheckpoint.mp hd with ⟨hcontents, -⟩ | hd
      · exact hcontents
      · exact h.weights d hd
  · constructor
    case dir =>
      exact mem_dirs_writeCheckpoint.mpr
        (.inl ⟨List.cons_ne_nil _ _, List.prefix_refl _⟩)
    case weights =>
      intro hcontents
      exact modelWeights_mem_writeCheckpoint.mpr (.inl ⟨hcontents, rfl⟩)

/-- Registering the checkpoint of step `k` removes none of that step. -/
theorem RunInv.saveCheckpoint (h : RunInv a done m) (hk : k ∉ done) :
    let m' := saveCheckpoint a [globalStep k, "actor"] m
    RunInv a (done ++ [k]) m' ∧ Complete a k m'.disk := by
  have hensured := h.ensureCheckpointCapacity
  obtain ⟨hinv, hcomplete⟩ := hensured.writeCheckpoint (k := k)
  intro m'
  simp only [m', Loop.saveCheckpoint, registerCheckpoint]
  split
  · exact ⟨hinv, hcomplete⟩
  · next keep _ =>
      split_ifs with hfull
      · refine ⟨hinv.removeOldest _, hcomplete.removeOldest ?_⟩
        intro p hp
        dsimp only at hp hfull
        rw [List.length_append, List.length_singleton] at hp hfull
        -- at least one checkpoint is kept, and the new one is the last
        rw [List.take_append_of_le_length (by omega)] at hp
        obtain ⟨j, hj, rfl⟩ := hensured.saved p (List.mem_of_mem_take hp)
        exact ⟨j, fun heq => hk (heq ▸ hj), rfl⟩
      · exact ⟨hinv, hcomplete⟩

/-- The dataloader is saved beside the checkpoint. -/
theorem RunInv.saveStep (h : RunInv a done m) (hk : k ∉ done) :
    RunInv a (done ++ [k]) (saveStep a m k) ∧
      Complete a k (saveStep a m k).disk := by
  obtain ⟨hinv, hcomplete⟩ := h.saveCheckpoint hk
  have hfiles : ∀ d, (d, .modelWeights) ∈ (Loop.saveStep a m k).disk.files ↔
      (d, .modelWeights) ∈
        (Loop.saveCheckpoint a [globalStep k, "actor"] m).disk.files := by
    intro d
    simp [Loop.saveStep, mem_write]
  constructor
  · constructor
    case steps =>
      intro name
      rw [← hinv.steps]
      simp only [Loop.saveStep, write_dirs, mem_mkdir]
      apply or_iff_right_of_imp
      rintro ⟨-, hprefix⟩
      obtain ⟨rfl, -⟩ := List.cons_prefix_cons.mp hprefix
      exact (hinv.steps _).mpr
        ⟨k, List.mem_append_right _ (List.mem_singleton_self k), rfl⟩
    case saved => exact hinv.saved
    case weights =>
      intro d hd
      exact hinv.weights d ((hfiles d).mp hd)
  · constructor
    case dir => exact mem_mkdir.mpr (.inr hcomplete.dir)
    case weights =>
      intro hcontents
      exact (hfiles _).mpr (hcomplete.weights hcontents)

/-- **A training run** leaves one directory for each step, and the last
checkpoint complete. -/
theorem trainingRun_inv (a : Actor) {steps : List ℕ} (hnd : steps.Nodup) :
    RunInv a steps (trainingRun a steps) ∧
      ∀ k ∈ steps.getLast?, Complete a k (trainingRun a steps).disk := by
  induction steps using List.reverseRecOn with
  | nil =>
      refine ⟨?_, ?_⟩
      · constructor <;> simp [trainingRun]
      · simp
  | append_singleton steps k ih =>
      obtain ⟨hinit, -, hdisjoint⟩ := List.nodup_append.mp hnd
      have hk : k ∉ steps := by
        intro hmem
        exact hdisjoint k hmem k (List.mem_singleton_self k) rfl
      obtain ⟨hinv, hcomplete⟩ := (ih hinit).1.saveStep hk
      rw [trainingRun, List.foldl_append]
      refine ⟨hinv, ?_⟩
      rintro j hj
      rw [List.getLast?_concat] at hj
      obtain rfl := Option.some.inj hj
      exact hcomplete

end Run

/-! ## What is picked -/

/-- The steps of a training run that has saved something: the counter of the
trainer only grows. -/
structure SavedSteps where
  steps : List ℕ
  nonempty : steps ≠ []
  increasing : steps.Pairwise (· < ·)

def SavedSteps.last (saved : SavedSteps) : ℕ := saved.steps.getLast saved.nonempty

/-- The disk after a run. -/
def SavedSteps.disk (saved : SavedSteps) (a : Actor) : Disk :=
  (trainingRun a saved.steps).disk

section Pick

variable {a : Actor} {saved : SavedSteps} {root : String}

theorem SavedSteps.last_mem : saved.last ∈ saved.steps :=
  List.getLast_mem saved.nonempty

theorem SavedSteps.le_last : ∀ j ∈ saved.steps, j ≤ saved.last := by
  intro j hj
  have hsplit := List.dropLast_append_getLast saved.nonempty
  have hincreasing := saved.increasing
  rw [← hsplit] at hj hincreasing
  rcases List.mem_append.mp hj with hinit | hlast
  · have hlt := (List.pairwise_append.mp hincreasing).2.2 j hinit saved.last
      (List.mem_singleton_self _)
    exact Nat.le_of_lt hlt
  · exact Nat.le_of_eq (List.mem_singleton.mp hlast)

theorem SavedSteps.run_inv :
    RunInv a saved.steps (trainingRun a saved.steps) ∧
      Complete a saved.last (saved.disk a) := by
  have hnd : saved.steps.Nodup := saved.increasing.imp Nat.ne_of_lt
  obtain ⟨hinv, hcomplete⟩ := trainingRun_inv a hnd
  exact ⟨hinv, hcomplete _ (List.getLast?_eq_some_getLast saved.nonempty)⟩

/-- The last of the sorted numbers is the largest one. -/
theorem getLast?_insertionSort {js : List ℕ} {k : ℕ} (hk : k ∈ js)
    (hmax : ∀ j ∈ js, j ≤ k) :
    (js.insertionSort (· ≤ ·)).getLast? = some k := by
  have hsorted := List.pairwise_insertionSort (· ≤ ·) js
  have hk' := (List.mem_insertionSort (· ≤ ·)).mpr hk
  rcases List.eq_nil_or_concat' (js.insertionSort (· ≤ ·)) with h | ⟨init, x, h⟩
  · rw [h] at hk'
    cases hk'
  · have hx : x ∈ js.insertionSort (· ≤ ·) := by
      rw [h]
      exact List.mem_append_right _ (List.mem_singleton_self x)
    have hle : x ≤ k := hmax x ((List.mem_insertionSort (· ≤ ·)).mp hx)
    rw [h] at hk' hsorted ⊢
    rw [List.getLast?_concat]
    rcases List.mem_append.mp hk' with hinit | hlast
    · have hge := (List.pairwise_append.mp hsorted).2.2 k hinit x
        (List.mem_singleton_self x)
      rw [Nat.le_antisymm hle hge]
    · rw [List.mem_singleton.mp hlast]

theorem mem_listSteps {dirs : List (List String)} {line : String} :
    line ∈ listSteps root dirs ↔ ∃ name, [name] ∈ dirs ∧
      "global_step_".toList <+: name.toList ∧ line = root ++ "/" ++ name := by
  rw [listSteps, List.mem_filterMap]
  constructor
  · rintro ⟨dir, hdir, hline⟩
    split at hline
    · next name =>
        split_ifs at hline with hprefix
        exact ⟨name, hdir, hprefix, (Option.some.inj hline).symm⟩
    · cases hline
  · rintro ⟨name, hdir, hprefix, rfl⟩
    exact ⟨[name], hdir, if_pos hprefix⟩

/-- The path of the directory of a step. -/
def stepPath (root : String) (k : ℕ) : String := root ++ "/" ++ globalStep k

theorem stepPath_injective : Function.Injective (stepPath root) := by
  intro j k h
  exact globalStep_inj.mp ((String.append_right_inj _).mp h)

theorem stepPath_mem_listSteps {dirs : List (List String)} {k : ℕ} :
    stepPath root k ∈ listSteps root dirs ↔ [globalStep k] ∈ dirs := by
  rw [mem_listSteps]
  constructor
  · rintro ⟨name, hdir, -, hpath⟩
    obtain rfl : globalStep k = name := (String.append_right_inj _).mp hpath
    exact hdir
  · intro hdir
    refine ⟨globalStep k, hdir, ?_, rfl⟩
    rw [globalStep, String.toList_append]
    exact List.prefix_append _ _

/-- The lines of `ls` are the paths of the steps. -/
theorem exists_listSteps (root : String) {dirs : List (List String)}
    {steps : List ℕ}
    (hdirs : ∀ name, [name] ∈ dirs ↔ ∃ k ∈ steps, name = globalStep k) :
    ∃ js : List ℕ, listSteps root dirs = js.map (stepPath root) ∧
      ∀ k, k ∈ js ↔ k ∈ steps := by
  have hrange : listSteps root dirs ∈ Set.range (List.map (stepPath root)) := by
    rw [Set.range_list_map]
    intro line hline
    obtain ⟨name, hdir, -, rfl⟩ := mem_listSteps.mp hline
    obtain ⟨k, -, rfl⟩ := (hdirs name).mp hdir
    exact ⟨k, rfl⟩
  obtain ⟨js, hjs⟩ := hrange
  refine ⟨js, hjs.symm, ?_⟩
  intro k
  rw [← List.mem_map_of_injective stepPath_injective, hjs,
    stepPath_mem_listSteps, hdirs]
  constructor
  · rintro ⟨j, hj, heq⟩
    exact globalStep_inj.mp heq ▸ hj
  · intro hk
    exact ⟨k, hk, rfl⟩

/-- `sort -V` sorts the directories by their steps. -/
theorem versionSort_stepPath (js : List ℕ) :
    versionSort (js.map (stepPath root)) =
      (js.insertionSort (· ≤ ·)).map (stepPath root) := by
  have hpath : ∀ k, stepPath root k =
      root ++ "/global_step" ++ String.singleton '_' ++ toString k := by
    intro k
    have hname : "/" ++ "global_step_" =
        "/global_step" ++ String.singleton '_' := by decide
    calc stepPath root k
      _ = root ++ ("/" ++ "global_step_") ++ toString k := by
          simp only [stepPath, globalStep, String.append_assoc]
      _ = root ++ "/global_step" ++ String.singleton '_' ++ toString k := by
          rw [hname]
          simp only [String.append_assoc]
  symm
  apply List.map_insertionSort
  intro j _ k _
  rw [hpath, hpath, versionLE_numbered _ (by decide)]

/-- **What is picked** after a run: the model directory of its last step. -/
theorem pickLatestActorModel_eq (root : String) (saved : SavedSteps) :
    pickLatestActorModel root (saved.disk a).dirs =
      dirPath root [globalStep saved.last, "actor", "huggingface"] := by
  obtain ⟨hinv, hcomplete⟩ := saved.run_inv (a := a)
  obtain ⟨js, hlines, hjs⟩ := exists_listSteps root hinv.steps
  have hlast : (versionSort (listSteps root (saved.disk a).dirs)).getLast? =
      some (stepPath root saved.last) := by
    have hmax : ∀ j ∈ js, j ≤ saved.last := by
      intro j hj
      exact saved.le_last j ((hjs j).mp hj)
    show (versionSort (listSteps root (trainingRun a saved.steps).disk.dirs)).getLast?
      = _
    rw [hlines, versionSort_stepPath, List.getLast?_map,
      getLast?_insertionSort ((hjs _).mpr saved.last_mem) hmax]
    rfl
  have hpath : stepPath root saved.last ++ "/actor/huggingface" =
      dirPath root [globalStep saved.last, "actor", "huggingface"] := by
    have hname : "/actor/huggingface" = "/" ++ "actor" ++ "/" ++ "huggingface" :=
      by decide
    rw [hname, ← String.append_assoc, ← String.append_assoc,
      ← String.append_assoc]
    rfl
  have hdir : stepPath root saved.last ++ "/actor/huggingface" ∈
      (saved.disk a).dirs.map (dirPath root) := by
    rw [hpath]
    exact List.mem_map_of_mem hcomplete.dir
  rw [pickLatestActorModel, hlast]
  exact (if_pos (decide_eq_true hdir)).trans hpath

end Pick

/-! ## The models of the loop -/

def solverCkpts (cfg : Config) (r : ℕ) : String :=
  roundDir cfg r ++ "/solver/ckpts"

def teacherCkpts (cfg : Config) (r : ℕ) : String :=
  roundDir cfg r ++ "/teacher/ckpts"

/-- A loop in which every training saves, with the steps it saves at. -/
structure TrainedLoop (a : Actor) where
  cfg : Config
  solver : ℕ → SavedSteps
  teacher : ℕ → SavedSteps
  picked : ∀ r, cfg.newSolverModel r =
    pickLatestActorModel (solverCkpts cfg r) ((solver r).disk a).dirs

section Loaded

variable {a : Actor}

/-- `CURRENT_TEACHER_MODEL`, for `synthesize`. -/
def TrainedLoop.currentTeacherModel (t : TrainedLoop a) (s : State) : String :=
  let picked := pickLatestActorModel (teacherCkpts t.cfg s.round)
    ((t.teacher s.round).disk a).dirs
  if picked = "" then s.currentModel else picked

/-- The round of the last Student training that has ended. -/
def trainedRound (s : State) : ℕ :=
  if s.stage = .trainSolver then s.round - 1 else s.round

theorem dirPath_ne_empty (root name : String) (dir : List String) :
    dirPath root (name :: dir) ≠ "" := by
  induction dir generalizing root name with
  | nil =>
      intro hempty
      have hlist := congrArg String.toList hempty
      simp [dirPath] at hlist
  | cons name' dir ih =>
      intro hempty
      exact ih (root ++ "/" ++ name) name' hempty

theorem pickLatestActorModel_ne_empty (root : String) (saved : SavedSteps) :
    pickLatestActorModel root (saved.disk a).dirs ≠ "" := by
  rw [pickLatestActorModel_eq]
  exact dirPath_ne_empty _ _ _

/-- The directory that is picked holds a model if and only if models are
saved. -/
theorem newestLoadable_iff (root : String) (saved : SavedSteps) :
    NewestLoadable root saved.steps (saved.disk a)
        (pickLatestActorModel root (saved.disk a).dirs) ↔
      "hf_model" ∈ a.saveContents := by
  obtain ⟨hinv, hcomplete⟩ := saved.run_inv (a := a)
  constructor
  · rintro ⟨k, -, -, rest, -, hweights⟩
    exact hinv.weights _ hweights
  · intro hcontents
    refine ⟨saved.last, saved.last_mem, saved.le_last, ["actor", "huggingface"],
      pickLatestActorModel_eq root saved, ?_⟩
    exact hcomplete.weights hcontents

/-- The model of a round is what was picked after its Student training. -/
theorem TrainedLoop.modelAfter_eq (t : TrainedLoop a) {r : ℕ} (hr : 1 ≤ r) :
    modelAfter t.cfg r =
      pickLatestActorModel (solverCkpts t.cfg r) ((t.solver r).disk a).dirs := by
  rw [modelAfter_trained t.cfg hr, t.picked,
    if_neg (pickLatestActorModel_ne_empty _ _)]

/-- `CURRENT_MODEL` is what was picked after the last Student training. -/
theorem TrainedLoop.currentModel_eq (t : TrainedLoop a) {s : State}
    (hv : Vars t.cfg s) (hr : 1 ≤ trainedRound s) :
    s.currentModel = pickLatestActorModel (solverCkpts t.cfg (trainedRound s))
      ((t.solver (trainedRound s)).disk a).dirs := by
  rw [← t.modelAfter_eq hr]
  unfold trainedRound
  split_ifs with hstage
  · exact hv.untrained hstage
  · exact hv.trained hstage

/-- **What the next stage loads.** For every set of steps a training saves at,
the picked directory lies in the checkpoint of the largest step, and holds the
model if and only if `hf_model` is among the contents to save. So it is for
`CURRENT_MODEL` after the first Student training, at every moment of every run,
and for the Teacher that `synthesize` loads. -/
theorem picked_models_loadable_iff (a : Actor) :
    (∀ (root : String) (saved : SavedSteps),
      NewestLoadable root saved.steps (saved.disk a)
          (pickLatestActorModel root (saved.disk a).dirs) ↔
        "hf_model" ∈ a.saveContents) ∧
    ∀ (t : TrainedLoop a) (s : State), (machine t.cfg).Reachable s →
      s.stage.running = true →
      (1 ≤ trainedRound s →
        (NewestLoadable (solverCkpts t.cfg (trainedRound s))
            (t.solver (trainedRound s)).steps
            ((t.solver (trainedRound s)).disk a) s.currentModel ↔
          "hf_model" ∈ a.saveContents)) ∧
      (s.stage = .synthesize →
        (NewestLoadable (teacherCkpts t.cfg s.round) (t.teacher s.round).steps
            ((t.teacher s.round).disk a) (t.currentTeacherModel s) ↔
          "hf_model" ∈ a.saveContents)) := by
  refine ⟨newestLoadable_iff, ?_⟩
  intro t s hs hrun
  constructor
  · intro hr
    rw [t.currentModel_eq (reachable_vars hs hrun) hr]
    exact newestLoadable_iff _ _
  · intro _
    rw [TrainedLoop.currentTeacherModel,
      if_neg (pickLatestActorModel_ne_empty _ _)]
    exact newestLoadable_iff _ _

/-- An actor with a tokenizer on two ranks. -/
def exampleActor (saveContents : List String) : Actor where
  worldSize := 2
  saveContents := saveContents
  maxCkptToKeep := none
  generationConfig := true
  processingClass := true
  autoMap := false

/-- Thirty steps, saved every ten. -/
def exampleSteps : SavedSteps where
  steps := [10, 20, 30]
  nonempty := by decide
  increasing := by decide

/-- Three rounds in which each training saves at these steps. -/
def exampleLoop (a : Actor) : TrainedLoop a where
  cfg :=
    let cfg := exampleConfig fun _ => 5
    { cfg with
      newSolverModel := fun r => pickLatestActorModel (solverCkpts cfg r)
        (exampleSteps.disk a).dirs }
  solver := fun _ => exampleSteps
  teacher := fun _ => exampleSteps
  picked := fun _ => rfl

/-- In the first round, when `synthesize` runs. -/
theorem picked_models_loadable_exampleActor :
    let a := exampleActor ["model", "optimizer", "extra", "hf_model"]
    let disk := (trainingRun a [10, 20, 30]).disk
    NewestLoadable "ckpts" [10, 20, 30] disk
        (pickLatestActorModel "ckpts" disk.dirs) ∧
      ∃ s, (machine (exampleLoop a).cfg).Reachable s ∧
        s.stage = .synthesize ∧
        NewestLoadable "runs/round_1/solver/ckpts" [10, 20, 30] disk
          s.currentModel ∧
        NewestLoadable "runs/round_1/teacher/ckpts" [10, 20, 30] disk
          ((exampleLoop a).currentTeacherModel s) := by
  intro a disk
  have hcontents : "hf_model" ∈ a.saveContents := by decide
  obtain ⟨hsaved, hloop⟩ := picked_models_loadable_iff a
  refine ⟨(hsaved "ckpts" exampleSteps).mpr hcontents, ?_⟩
  obtain ⟨s, hs, hp⟩ := Machine.exists_reachable_of_run
    (M := machine (exampleLoop a).cfg)
    (p := fun s => decide (s.stage = .synthesize ∧ s.round = 1))
    (List.replicate 6 .done) (by decide +kernel)
  obtain ⟨hstage, hround⟩ := of_decide_eq_true hp
  have htrained : trainedRound s = 1 := by
    rw [trainedRound, hstage, hround]
    rfl
  obtain ⟨hstudent, hteacher⟩ := hloop (exampleLoop a) s hs (by rw [hstage]; rfl)
  refine ⟨s, hs, hstage, ?_, ?_⟩
  · have hloaded := (hstudent (by rw [htrained])).mpr hcontents
    rwa [htrained] at hloaded
  · have hloaded := (hteacher hstage).mpr hcontents
    rwa [hround] at hloaded

/-- With the contents that the trainer saves by default the directory of the
newest checkpoint is picked, and no model is in it. -/
theorem picked_without_weights :
    let a := exampleActor ["model", "optimizer", "extra"]
    let disk := (trainingRun a [10, 20, 30]).disk
    "model" ∈ a.saveContents ∧
      pickLatestActorModel "ckpts" disk.dirs =
        "ckpts/global_step_30/actor/huggingface" ∧
      ¬ NewestLoadable "ckpts" [10, 20, 30] disk
        (pickLatestActorModel "ckpts" disk.dirs) := by
  intro a disk
  refine ⟨by decide, by decide +kernel, ?_⟩
  rintro ⟨k, -, -, rest, -, hweights⟩
  have hnd : [10, 20, 30].Nodup := by decide
  exact absurd ((trainingRun_inv a hnd).1.weights _ hweights) (by decide)

end Loaded

end TTSR.Loop
