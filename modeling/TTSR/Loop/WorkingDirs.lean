import TTSR.Foundation.Paths
import TTSR.Loop.Checkpoints

/-!
# Working directories

The loop runs all its programs in the directory it was started in, but the two
training scripts change into `ROOT_DIR/verl` before the trainer sees the paths
they were given. `same_files_iff` says for which values of the path variables
all stages mean the same files: each of them is absolute, or the two directories
agree as far as the path does not climb out of them.
-/

namespace TTSR.Loop

open TTSR.Foundation TTSR.Foundation.Paths

/-! ## The start of the script -/

/-- `${value:-fallback}`. -/
def orElse (value fallback : String) : String :=
  if value = "" then fallback else value

/-- The variables of the environment that name files; unset ones are empty. -/
structure PathEnv where
  modelPath : String
  testFile : String
  baseTrain : String
  valFile : String
  baseVal : String
  workDir : String

namespace PathEnv

variable (env : PathEnv)

/-- `TEST_FILE` after its default. -/
def test : String := orElse env.testFile env.baseTrain

/-- `VAL_FILE` after its default. -/
def val : String := orElse env.valFile (orElse env.baseVal env.test)

/-- `WORK_DIR` after its default. -/
def work (rootDir : String) : String :=
  orElse env.workDir (rootDir ++ "/runs/ttsr_loop")

end PathEnv

/-- A start of the script that gets past the check of its usage. -/
structure Launch where
  env : PathEnv
  modelPath_ne : env.modelPath ≠ ""
  test_ne : env.test ≠ ""
  rootDir : String
  /-- The directory the script is started in. -/
  startDir : List String
  rounds : ℕ
  studentEvalUrl : String
  studentEvalCudaVisibleDevices : String
  studentEvalPort : String
  failedCount : ℕ → ℕ
  /-- The directories `pick_latest_actor_model` finds in each round. -/
  solverDirs : ℕ → List (List String)
  teacherDirs : ℕ → List (List String)

namespace Launch

variable (l : Launch)

def shell : Config where
  modelPath := l.env.modelPath
  testFile := l.env.test
  workDir := l.env.work l.rootDir
  rounds := l.rounds
  studentEvalUrl := l.studentEvalUrl
  studentEvalCudaVisibleDevices := l.studentEvalCudaVisibleDevices
  studentEvalPort := l.studentEvalPort
  failedCount := l.failedCount
  newSolverModel := fun r =>
    let dir := l.env.work l.rootDir ++ "/round_" ++ toString r
    pickLatestActorModel (dir ++ "/solver/ckpts") (l.solverDirs r)

/-- `cd "${VERL_DIR}"`. -/
def trainDir : List String := resolve l.startDir (l.rootDir ++ "/verl")

/-- `CURRENT_TEACHER_MODEL`. -/
def teacherModel (s : State) : String :=
  orElse (pickLatestActorModel (teacherCkpts l.shell s.round)
    (l.teacherDirs s.round)) s.currentModel

end Launch

/-! ## What a stage reads and writes -/

inductive Mode where
  | read
  | write
deriving DecidableEq

/-- A use of a path by a process. -/
structure Access where
  mode : Mode
  path : String
  cwd : List String

/-- The file or directory that is used. -/
def Access.place (x : Access) : List String := resolve x.cwd x.path

section Accesses

variable (l : Launch) (s : State)

/-- A path used where the loop runs. -/
def here (mode : Mode) (path : String) : Access := ⟨mode, path, l.startDir⟩

/-- A path used by the trainer. -/
def inVerl (mode : Mode) (path : String) : Access := ⟨mode, path, l.trainDir⟩

/-- What `train_solver.sh` and `train_teacher.sh` do with their paths. -/
def trainAccesses (modelPath trainFile valFile outputDir : String) :
    List Access :=
  -- `mkdir -p` comes before `cd`
  [here l .write outputDir,
   inVerl l .read trainFile,
   inVerl l .read valFile,
   inVerl l .read modelPath,
   inVerl l .write (outputDir ++ "/rollout_data"),
   inVerl l .write (outputDir ++ "/validation_data"),
   inVerl l .write (outputDir ++ "/ckpts")]

/-- The uses of paths of the running command, with those of the lines of the
script behind it. -/
def accesses : List Access :=
  let roundDir := roundDir l.shell s.round
  match s.stage with
  | .trainSolver =>
      trainAccesses l s.currentModel s.roundTrain l.env.val
        (roundDir ++ "/solver") ++
      [here l .read (solverCkpts l.shell s.round)]
  | .extractFailed =>
      [here l .read (roundDir ++ "/solver/rollout_data"),
       here l .write (roundDir ++ "/failed_instances.jsonl"),
       here l .read (roundDir ++ "/failed_instances.jsonl")]
  | .reflect =>
      [here l .read s.currentModel,
       here l .read (roundDir ++ "/failed_instances.jsonl"),
       here l .write (roundDir ++ "/memory.json"),
       here l .write (strategyNotePath l.shell s.round),
       here l .write (roundDir ++ "/reflections.jsonl")] ++
      (if s.prevMemory ≠ "" then [here l .read s.prevMemory] else []) ++
      (if l.failedCount s.round = 0 then
        [here l .write (roundDir ++ "/variants.jsonl"),
         here l .write (roundDir ++ "/variant_rollout_cache.jsonl")]
      else [])
  | .startStudentEvaluator =>
      [here l .read s.currentModel,
       here l .write (roundDir ++ "/student_evaluator.log")] ++
      (strategyArgs s).toList.map (here l .read)
  | .buildTeacherDataset =>
      [here l .read (roundDir ++ "/failed_instances.jsonl"),
       here l .read (roundDir ++ "/reflections.jsonl"),
       here l .read (roundDir ++ "/memory.json"),
       here l .write (roundDir ++ "/teacher_train.parquet")]
  | .trainTeacher =>
      trainAccesses l s.currentModel (roundDir ++ "/teacher_train.parquet")
        (roundDir ++ "/teacher_train.parquet") (roundDir ++ "/teacher") ++
      [here l .read (teacherCkpts l.shell s.round)]
  | .synthesize =>
      [here l .read (l.teacherModel s),
       here l .read (roundDir ++ "/failed_instances.jsonl"),
       here l .read (roundDir ++ "/memory.json"),
       here l .read (roundDir ++ "/reflections.jsonl"),
       here l .write (roundDir ++ "/variants.jsonl"),
       here l .write (roundDir ++ "/variant_rollout_cache.jsonl")]
  | .buildRoundDataset =>
      [here l .read l.env.test,
       here l .read (roundDir ++ "/variants.jsonl"),
       here l .read (strategyNotePath l.shell s.round),
       here l .write (roundDir ++ "/round_train.parquet")]
  | .stopStudentEvaluator | .finished | .aborted => []

/-- Every path that is used means the file that it means for the loop. -/
def SameFiles : Prop :=
  ∀ x ∈ accesses l s, x.place = resolve l.startDir x.path

end Accesses

/-! ## Who has written what -/

/-- The script, and the last writer of every place with its round. -/
structure DiskState where
  shell : State
  writer : List String → Option (Stage × ℕ)

/-- Every place of the list gets a new writer. -/
def mark (writer : List String → Option (Stage × ℕ)) (stamp : Stage × ℕ)
    (places : List (List String)) (place : List String) : Option (Stage × ℕ) :=
  if place ∈ places then some stamp else writer place

variable (l : Launch)

/-- The places the running command writes. -/
def written (s : State) : List (List String) :=
  ((accesses l s).filter (·.mode = .write)).map (·.place)

def diskStep (d : DiskState) (e : Event) : Option DiskState :=
  (step l.shell d.shell e).map fun s => {
    shell := s
    writer := match e with
      | .done => mark d.writer (d.shell.stage, d.shell.round)
          (written l d.shell)
      | .fail => d.writer }

def diskMachine : Machine DiskState Event :=
  ⟨⟨initial l.shell, fun _ => none⟩, diskStep l⟩

/-- What is read of a training has been written by the training of this
round. -/
structure JustWritten (d : DiskState) : Prop where
  rollouts : d.shell.stage = .extractFailed →
    d.writer (resolve l.startDir
      (roundDir l.shell d.shell.round ++ "/solver/rollout_data")) =
        some (.trainSolver, d.shell.round)
  solver : d.shell.stage = .extractFailed →
    d.writer (resolve l.startDir (solverCkpts l.shell d.shell.round)) =
      some (.trainSolver, d.shell.round)
  teacher : d.shell.stage = .synthesize →
    d.writer (resolve l.startDir (teacherCkpts l.shell d.shell.round)) =
      some (.trainTeacher, d.shell.round)

/-- The path is absolute, or it climbs so far that the directory of the loop
and that of the trainer agree behind it. -/
def MeansTheSame (path : String) : Prop :=
  IsAbsolute path ∨
    l.startDir.rdrop (ups path) = l.trainDir.rdrop (ups path)

/-! ## Paths that mean the same -/

/-- The loop and the trainer mean one place. -/
def Alike (path : String) : Prop :=
  resolve l.trainDir path = resolve l.startDir path

variable {l} {s s' : State} {e : Event} {path : String}

theorem alike_iff : Alike l path ↔ MeansTheSame l path := by
  rw [Alike, eq_comm]
  exact resolve_eq_iff

theorem Alike.below (h : Alike l path) (hne : path ≠ "") (q : String) :
    Alike l (path ++ "/" ++ q) := by
  have hplace : resolve l.trainDir path = resolve l.startDir path := h
  rw [Alike, resolve_append _ hne, resolve_append _ hne, hplace]

theorem orElse_ne {value fallback : String} (h : fallback ≠ "") :
    orElse value fallback ≠ "" := by
  unfold orElse
  split_ifs with hvalue
  · exact h
  · exact hvalue

theorem workDir_ne (l : Launch) : l.shell.workDir ≠ "" := by
  apply orElse_ne
  intro hempty
  have hlist := congrArg String.toList hempty
  simp at hlist

/-- What is under the directory of a round is under `WORK_DIR`. -/
theorem roundDir_append (cfg : Config) (r : ℕ) (suffix : String) :
    roundDir cfg r ++ suffix =
      cfg.workDir ++ "/" ++ ("round_" ++ toString r ++ suffix) := by
  have hname : "/round_" = "/" ++ "round_" := by decide
  rw [roundDir, hname]
  simp only [String.append_assoc]

theorem Alike.roundDir (h : Alike l l.shell.workDir) (r : ℕ)
    (suffix : String) : Alike l (roundDir l.shell r ++ suffix) := by
  rw [roundDir_append]
  exact h.below (workDir_ne l) _

/-- What is picked is under the checkpoint root. -/
theorem exists_pickLatestActorModel {root : String}
    {dirs : List (List String)} (h : pickLatestActorModel root dirs ≠ "") :
    ∃ q, pickLatestActorModel root dirs = root ++ "/" ++ q := by
  unfold pickLatestActorModel at h ⊢
  cases hlast : (VersionSort.versionSort (listSteps root dirs)).getLast? with
  | none =>
      rw [hlast] at h
      exact absurd rfl h
  | some latest =>
      have hmem : latest ∈ listSteps root dirs :=
        (List.mem_insertionSort _).mp (List.mem_of_getLast? hlast)
      obtain ⟨name, -, -, rfl⟩ := mem_listSteps.mp hmem
      rw [hlast] at h
      dsimp only at h ⊢
      split_ifs at h ⊢
      · exact ⟨name ++ "/actor/huggingface", String.append_assoc⟩
      · exact ⟨name ++ "/actor", String.append_assoc⟩
      · exact absurd rfl h

theorem Alike.newSolverModel (h : Alike l l.shell.workDir) {r : ℕ}
    (hne : l.shell.newSolverModel r ≠ "") :
    Alike l (l.shell.newSolverModel r) := by
  obtain ⟨q, hq⟩ := exists_pickLatestActorModel hne
  have hpath : l.shell.newSolverModel r =
      Loop.roundDir l.shell r ++ ("/solver/ckpts" ++ "/" ++ q) := by
    rw [← String.append_assoc, ← String.append_assoc]
    exact hq
  rw [hpath]
  exact h.roundDir r _

/-! ## One step of the script -/

variable {cfg : Config}

@[simp] theorem stopStudentEvaluator_roundTrain :
    (stopStudentEvaluator s).roundTrain = s.roundTrain := by
  unfold stopStudentEvaluator
  split <;> rfl

theorem startStudentEvaluator_roundTrain
    (h : startStudentEvaluator cfg s = some s') :
    s'.roundTrain = s.roundTrain := by
  unfold startStudentEvaluator at h
  split_ifs at h
  · cases h
    rfl
  · cases h
    rfl

/-- The paths the trainings get are given once, picked, or of a round. -/
structure Inputs (cfg : Config) (s s' : State) : Prop where
  model : s'.currentModel = s.currentModel ∨
    ∃ r, cfg.newSolverModel r ≠ "" ∧ s'.currentModel = cfg.newSolverModel r
  train : s'.roundTrain = s.roundTrain ∨
    ∃ r, s'.roundTrain = roundDir cfg r ++ "/round_train.parquet"

theorem Inputs.refl (hmodel : s'.currentModel = s.currentModel)
    (htrain : s'.roundTrain = s.roundTrain) : Inputs cfg s s' :=
  ⟨.inl hmodel, .inl htrain⟩

theorem Success.inputs (h : Success cfg s s') : Inputs cfg s s' := by
  cases h with
  | trainSolver hstage =>
      refine ⟨?_, .inl rfl⟩
      by_cases hempty : cfg.newSolverModel s.round = ""
      · exact .inl (if_pos hempty)
      · exact .inr ⟨s.round, hempty, if_neg hempty⟩
  | startStudentEvaluator hstage hstart =>
      have htrain := startStudentEvaluator_roundTrain hstart
      exact .refl (startStudentEvaluator_vars hstart).2.1 htrain
  | stopStudentEvaluator hstage =>
      exact .refl stopStudentEvaluator_currentModel
        stopStudentEvaluator_roundTrain
  | buildRoundDataset hstage =>
      unfold nextRound
      split_ifs
      · exact ⟨.inl rfl, .inr ⟨s.round, rfl⟩⟩
      · exact ⟨.inl stopStudentEvaluator_currentModel,
          .inr ⟨s.round, stopStudentEvaluator_roundTrain⟩⟩
  | extractFailed hstage | reflect hstage | buildTeacherDataset hstage
  | trainTeacher hstage | synthesize hstage => exact .refl rfl rfl

theorem step_inputs (h : step cfg s e = some s') : Inputs cfg s s' := by
  cases e with
  | done => exact (success_of_finish h).inputs
  | fail =>
      obtain ⟨-, -, rfl⟩ := step_fail_cases h
      exact .refl stopStudentEvaluator_currentModel
        stopStudentEvaluator_roundTrain

/-- Only the end of a training leads to what reads of it. -/
theorem Success.stage_before (h : Success cfg s s') :
    (s'.stage = .extractFailed →
      s.stage = .trainSolver ∧ s'.round = s.round) ∧
    (s'.stage = .synthesize →
      s.stage = .trainTeacher ∧ s'.round = s.round) := by
  cases h with
  | trainSolver hstage => simp [hstage]
  | trainTeacher hstage => simp [hstage]
  | reflect hstage =>
      dsimp only
      split_ifs <;> simp
  | buildRoundDataset hstage =>
      unfold nextRound
      split_ifs <;> simp
  | _ => simp

/-! ## Runs -/

/-- What the trainings are given means the same in every state. -/
theorem reachable_alike (hmodel : Alike l l.env.modelPath)
    (htest : Alike l l.env.test) (hwork : Alike l l.shell.workDir)
    (h : (machine l.shell).Reachable s) :
    Alike l s.currentModel ∧ Alike l s.roundTrain := by
  have hinit : Alike l (initial l.shell).currentModel ∧
      Alike l (initial l.shell).roundTrain := ⟨hmodel, htest⟩
  refine Machine.ReachableIf.invariant (M := machine l.shell)
    (I := fun s => Alike l s.currentModel ∧ Alike l s.roundTrain) hinit ?_ h
  rintro s e s' - ⟨hcurrent, htrain⟩ - hs
  have hinputs := step_inputs hs
  constructor
  · rcases hinputs.model with heq | ⟨r, hne, heq⟩
    · rwa [heq]
    · rw [heq]
      exact hwork.newSolverModel hne
  · rcases hinputs.train with heq | ⟨r, heq⟩
    · rwa [heq]
    · rw [heq]
      exact hwork.roundDir r _

/-- A training whose paths mean the same uses the same files. -/
theorem trainAccesses_same {model train val outputDir : String}
    (hmodel : Alike l model) (htrain : Alike l train) (hval : Alike l val)
    (hout : ∀ suffix, Alike l (outputDir ++ suffix)) :
    ∀ x ∈ trainAccesses l model train val outputDir,
      x.place = resolve l.startDir x.path := by
  simp only [trainAccesses, List.forall_mem_cons, List.not_mem_nil,
    false_implies, implies_true, and_true]
  exact ⟨rfl, htrain, hval, hmodel, hout _, hout _, hout _⟩

theorem sameFiles_of_alike (hmodel : Alike l s.currentModel)
    (htrain : Alike l s.roundTrain) (hval : Alike l l.env.val)
    (hwork : Alike l l.shell.workDir) : SameFiles l s := by
  have hdir : ∀ name suffix,
      Alike l (roundDir l.shell s.round ++ name ++ suffix) := by
    intro name suffix
    rw [String.append_assoc]
    exact hwork.roundDir _ _
  unfold SameFiles accesses
  intro x hx
  cases hstage : s.stage with
  | trainSolver =>
      rw [hstage] at hx
      rcases List.mem_append.mp hx with hx | hx
      · exact trainAccesses_same hmodel htrain hval (hdir _) x hx
      · obtain rfl := List.mem_singleton.mp hx
        rfl
  | trainTeacher =>
      rw [hstage] at hx
      rcases List.mem_append.mp hx with hx | hx
      · exact trainAccesses_same hmodel (hwork.roundDir _ _)
          (hwork.roundDir _ _) (hdir _) x hx
      · obtain rfl := List.mem_singleton.mp hx
        rfl
  | _ =>
      -- nothing else leaves the directory of the loop
      rw [hstage] at hx
      have hcwd : x.cwd = l.startDir := by
        revert x
        simp [here, or_imp, forall_and]
      rw [Access.place, hcwd]

theorem mem_written {x : Access} (hx : x ∈ accesses l s)
    (hmode : x.mode = .write) : x.place ∈ written l s :=
  List.mem_map_of_mem (List.mem_filter.mpr ⟨hx, decide_eq_true hmode⟩)

variable {d d' : DiskState}

/-- A place the running command writes bears its name afterwards. -/
theorem writer_of_diskStep {x : Access} (hx : x ∈ accesses l d.shell)
    (hmode : x.mode = .write) (h : diskStep l d .done = some d') :
    d'.writer x.place = some (d.shell.stage, d.shell.round) := by
  obtain ⟨s, -, rfl⟩ := Option.map_eq_some_iff.mp h
  exact if_pos (mem_written hx hmode)

/-- What a training writes in `OUTPUT_DIR`. -/
theorem mem_trainAccesses (model train val outputDir : String) :
    inVerl l .write (outputDir ++ "/rollout_data") ∈
        trainAccesses l model train val outputDir ∧
      inVerl l .write (outputDir ++ "/ckpts") ∈
        trainAccesses l model train val outputDir := by
  simp [trainAccesses]

theorem step_of_diskStep (h : diskStep l d e = some d') :
    step l.shell d.shell e = some d'.shell := by
  obtain ⟨s, hs, rfl⟩ := Option.map_eq_some_iff.mp h
  exact hs

theorem mem_accesses_trainSolver (hstage : s.stage = .trainSolver) :
    ∀ x ∈ trainAccesses l s.currentModel s.roundTrain l.env.val
      (roundDir l.shell s.round ++ "/solver"), x ∈ accesses l s := by
  intro x hx
  rw [accesses, hstage]
  exact List.mem_append_left _ hx

theorem mem_accesses_trainTeacher (hstage : s.stage = .trainTeacher) :
    ∀ x ∈ trainAccesses l s.currentModel
      (roundDir l.shell s.round ++ "/teacher_train.parquet")
      (roundDir l.shell s.round ++ "/teacher_train.parquet")
      (roundDir l.shell s.round ++ "/teacher"), x ∈ accesses l s := by
  intro x hx
  rw [accesses, hstage]
  exact List.mem_append_left _ hx

/-- A training that means the same files leaves its rollouts and checkpoints
where the loop looks for them. -/
theorem writer_of_training {model train val outputDir : String}
    (hsame : SameFiles l d.shell)
    (huse : ∀ x ∈ trainAccesses l model train val outputDir,
      x ∈ accesses l d.shell)
    (h : diskStep l d .done = some d') :
    d'.writer (resolve l.startDir (outputDir ++ "/rollout_data")) =
        some (d.shell.stage, d.shell.round) ∧
      d'.writer (resolve l.startDir (outputDir ++ "/ckpts")) =
        some (d.shell.stage, d.shell.round) := by
  obtain ⟨hrollouts, hckpts⟩ := mem_trainAccesses model train val outputDir
  have hwriter : ∀ path, inVerl l .write path ∈ accesses l d.shell →
      d'.writer (resolve l.startDir path) =
        some (d.shell.stage, d.shell.round) := by
    intro path hx
    rw [← writer_of_diskStep hx rfl h, hsame _ hx]
    rfl
  exact ⟨hwriter _ (huse _ hrollouts), hwriter _ (huse _ hckpts)⟩

/-- After a training that means the same files, what is read of it is its
own. -/
theorem justWritten_of_diskStep (hsame : SameFiles l d.shell)
    (h : diskStep l d e = some d') : JustWritten l d' := by
  cases e with
  | fail =>
      obtain ⟨-, -, hshell⟩ := step_fail_cases (step_of_diskStep h)
      have haborted := congrArg State.stage hshell
      constructor <;>
        · intro hstage
          rw [haborted] at hstage
          cases hstage
  | done =>
      have hbefore := (success_of_finish (step_of_diskStep h)).stage_before
      have hsolver : d'.shell.stage = .extractFailed →
          d'.writer (resolve l.startDir (roundDir l.shell d'.shell.round ++
            "/solver" ++ "/rollout_data")) =
              some (.trainSolver, d'.shell.round) ∧
          d'.writer (resolve l.startDir (roundDir l.shell d'.shell.round ++
            "/solver" ++ "/ckpts")) = some (.trainSolver, d'.shell.round) := by
        intro hstage'
        obtain ⟨hstage, hround⟩ := hbefore.1 hstage'
        rw [hround, ← hstage]
        exact writer_of_training hsame (mem_accesses_trainSolver hstage) h
      constructor
      case rollouts =>
        intro hstage'
        have hwriter := (hsolver hstage').1
        rw [String.append_assoc] at hwriter
        exact hwriter
      case solver =>
        intro hstage'
        have hwriter := (hsolver hstage').2
        rw [String.append_assoc] at hwriter
        exact hwriter
      case teacher =>
        intro hstage'
        obtain ⟨hstage, hround⟩ := hbefore.2 hstage'
        rw [hround, ← hstage, teacherCkpts]
        have hwriter := (writer_of_training hsame
          (mem_accesses_trainTeacher hstage) h).2
        rw [String.append_assoc] at hwriter
        exact hwriter

theorem reachable_diskShell (h : (diskMachine l).Reachable d) :
    (machine l.shell).Reachable d.shell := by
  refine Machine.Reachable.simulate (N := machine l.shell) DiskState.shell rfl
    ?_ h
  intro d e d' hstep
  exact .inr ⟨e, step_of_diskStep hstep⟩

/-- Where no state of the script uses different files, what is read of a
training has just been written. -/
theorem reachable_justWritten
    (hsame : ∀ s, (machine l.shell).Reachable s → SameFiles l s)
    (h : (diskMachine l).Reachable d) : JustWritten l d := by
  refine Machine.ReachableIf.invariant (I := JustWritten l) ?_ ?_ h
  · have hstage : (initial l.shell).stage = .finished ∨
        (initial l.shell).stage = .trainSolver := ite_eq_or_eq _ _ _
    constructor
    all_goals
      intro hlate
      have hlate' : (initial l.shell).stage = _ := hlate
      rcases hstage with hstage | hstage <;>
        · rw [hstage] at hlate'
          cases hlate'
  · intro d e d' hd _ _ hstep
    exact justWritten_of_diskStep (hsame _ (reachable_diskShell hd)) hstep

/-- Without a round nothing runs. -/
theorem reachable_no_rounds (hrounds : cfg.rounds = 0)
    (h : (machine cfg).Reachable s) : s.stage = .finished := by
  refine Machine.ReachableIf.invariant (I := fun s => s.stage = .finished)
    (if_pos hrounds) ?_ h
  intro s e s' _ hstage _ hs
  cases e with
  | done =>
      have hrun := running_of_finish hs
      rw [hstage] at hrun
      cases hrun
  | fail =>
      have hfail : step cfg s .fail = some s' := hs
      exact absurd hstage (step_fail_cases hfail).1

/-- The first training uses the four paths. -/
theorem alike_of_initial (hrounds : l.rounds ≠ 0)
    (h : SameFiles l (initial l.shell)) :
    Alike l l.env.modelPath ∧ Alike l l.env.test ∧ Alike l l.env.val ∧
      Alike l l.shell.workDir := by
  have hstage : (initial l.shell).stage = .trainSolver := if_neg hrounds
  have huse : ∀ mode path, inVerl l mode path ∈ trainAccesses l
      l.env.modelPath l.env.test l.env.val (roundDir l.shell 1 ++ "/solver") →
      Alike l path := by
    intro mode path hx
    exact h (inVerl l mode path) (mem_accesses_trainSolver hstage _ hx)
  refine ⟨huse .read _ ?_, huse .read _ ?_, huse .read _ ?_, ?_⟩
  · simp [trainAccesses]
  · simp [trainAccesses]
  · simp [trainAccesses]
  · have hckpts := huse .write _ (mem_trainAccesses _ _ _ _).2
    rw [String.append_assoc, roundDir_append] at hckpts
    have hplain : ∀ name ∈ components
        ("round_" ++ toString 1 ++ ("/solver" ++ "/ckpts")), Plain name := by
      unfold Plain
      decide +kernel
    exact (resolve_below_iff (workDir_ne l) hplain).mp hckpts

/-- **All stages mean the same files**, in every round of every run, if and only
if there is no round at all or each of the four paths is absolute or climbs to
where the two directories agree. Then `extract_failed` reads the rollouts, and
`pick_latest_actor_model` finds the checkpoints, of this round's training. -/
theorem same_files_iff (l : Launch) :
    (∀ d, (diskMachine l).Reachable d →
      SameFiles l d.shell ∧ JustWritten l d) ↔
    l.rounds = 0 ∨
      ∀ path ∈ [l.env.modelPath, l.env.test, l.env.val, l.env.work l.rootDir],
        MeansTheSame l path := by
  constructor
  · intro h
    by_cases hrounds : l.rounds = 0
    · exact .inl hrounds
    · obtain ⟨hmodel, htest, hval, hwork⟩ :=
        alike_of_initial hrounds (h _ .init).1
      refine .inr ?_
      simp only [List.forall_mem_cons, List.not_mem_nil, false_implies,
        implies_true, and_true]
      exact ⟨alike_iff.mp hmodel, alike_iff.mp htest, alike_iff.mp hval,
        alike_iff.mp hwork⟩
  · intro h d hd
    have hsame : ∀ s, (machine l.shell).Reachable s → SameFiles l s := by
      intro s hs
      rcases h with hrounds | hpaths
      · have hstage := reachable_no_rounds hrounds hs
        intro x hx
        rw [accesses, hstage] at hx
        cases hx
      · simp only [List.forall_mem_cons, List.not_mem_nil, false_implies,
          implies_true, and_true] at hpaths
        obtain ⟨hmodel, htest, hval, hwork⟩ := hpaths
        have hwork' : Alike l l.shell.workDir := alike_iff.mpr hwork
        obtain ⟨hcurrent, htrain⟩ := reachable_alike (alike_iff.mpr hmodel)
          (alike_iff.mpr htest) hwork' hs
        exact sameFiles_of_alike hcurrent htrain (alike_iff.mpr hval) hwork'
    exact ⟨hsame _ (reachable_diskShell hd), reachable_justWritten hsame hd⟩

/-- The documented configuration, started in the directory of the
repository. -/
def documentedLaunch : Launch where
  env := {
    modelPath := "./models/base"
    testFile := "./data/test.parquet"
    baseTrain := ""
    valFile := "./data/test.parquet"
    baseVal := ""
    workDir := "./runs/ttsr_loop" }
  modelPath_ne := by decide
  test_ne := by decide
  rootDir := "/ttsr"
  startDir := ["ttsr"]
  rounds := 3
  studentEvalUrl := ""
  studentEvalCudaVisibleDevices := "1"
  studentEvalPort := "8877"
  failedCount := fun _ => 0
  solverDirs := fun _ => []
  teacherDirs := fun _ => []

/-- The trainer looks for the test file, and leaves the rollouts, below `verl`;
where `extract_failed` reads nothing has been written. -/
theorem files_differ_documentedLaunch :
    let l := documentedLaunch
    let data := inVerl l .read "./data/test.parquet"
    let rollouts := roundDir l.shell 1 ++ "/solver/rollout_data"
    (data ∈ accesses l (initial l.shell) ∧
      data.place = ["ttsr", "verl", "data", "test.parquet"] ∧
      resolve l.startDir data.path = ["ttsr", "data", "test.parquet"] ∧
      ¬ SameFiles l (initial l.shell)) ∧
    ∃ d, (diskMachine l).Reachable d ∧ d.shell.stage = .extractFailed ∧
      d.writer (resolve l.startDir rollouts) = none ∧ ¬ JustWritten l d := by
  intro l data rollouts
  constructor
  · have hdata : data ∈ accesses l (initial l.shell) := by
      apply List.mem_append_left
      exact List.mem_cons_of_mem _ List.mem_cons_self
    have hplace : data.place = ["ttsr", "verl", "data", "test.parquet"] := by
      decide +kernel
    have hstart : resolve l.startDir data.path =
        ["ttsr", "data", "test.parquet"] := by decide +kernel
    refine ⟨hdata, hplace, hstart, ?_⟩
    intro hsame
    have heq := hsame data hdata
    rw [hplace, hstart] at heq
    exact absurd heq (by decide)
  · obtain ⟨d, hd, hp⟩ := Machine.exists_reachable_of_run (M := diskMachine l)
      (p := fun d => decide (d.shell.stage = .extractFailed ∧
        d.shell.round = 1 ∧ d.writer (resolve l.startDir rollouts) = none))
      [.done] (by decide +kernel)
    obtain ⟨hstage, hround, hnone⟩ := of_decide_eq_true hp
    refine ⟨d, hd, hstage, hnone, ?_⟩
    intro hjust
    have hsome := hjust.rollouts hstage
    rw [hround, hnone] at hsome
    cases hsome

end TTSR.Loop
