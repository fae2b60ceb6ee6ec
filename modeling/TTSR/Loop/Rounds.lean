import Mathlib.Data.Nat.Notation
import TTSR.Foundation.Machine
import TTSR.Foundation.Text

/-!
# The round loop

`run_ttsr_loop.sh` as a machine. A state is the command that is running, the
shell variables, the strategy notes written so far and the evaluator processes
that are alive. A step is the end of the running command: `done` if it succeeds,
`fail` if it does not, in which case `set -e` ends the script and the `EXIT`
trap stops the evaluator.

The outside enters as a configuration: the failed count of every round, and what
`pick_latest_actor_model` prints after the Student training of every round. A
launched evaluator becomes ready and lives until it is killed.
-/

namespace TTSR.Loop

open TTSR.Foundation

/-- The environment of the script, and what its commands will find. -/
structure Config where
  modelPath : String
  testFile : String
  workDir : String
  rounds : ℕ
  studentEvalUrl : String
  studentEvalCudaVisibleDevices : String
  studentEvalPort : String
  /-- `FAILED_COUNT` of each round. -/
  failedCount : ℕ → ℕ
  /-- `NEW_SOLVER_MODEL` of each round, empty if no checkpoint was found. -/
  newSolverModel : ℕ → String

/-- The running command. -/
inductive Stage where
  | trainSolver
  | extractFailed
  | reflect
  | startStudentEvaluator
  | buildTeacherDataset
  | trainTeacher
  | synthesize
  | stopStudentEvaluator
  | buildRoundDataset
  | finished
  | aborted
deriving DecidableEq

/-- An evaluator process, with the arguments it was launched with. -/
structure Evaluator where
  pid : ℕ
  url : String
  model : String
  strategyNote : Option String
  startedRound : ℕ
deriving DecidableEq

structure State where
  stage : Stage
  round : ℕ
  currentModel : String
  roundTrain : String
  prevMemory : String
  prevStrategy : String
  evaluatorUrl : String
  evaluatorPid : Option ℕ
  nextPid : ℕ
  /-- The strategy notes on disk. -/
  notes : List String
  /-- The evaluator processes that are alive. -/
  live : List Evaluator
deriving DecidableEq

inductive Event where
  | done
  | fail
deriving DecidableEq

variable (cfg : Config)

def roundDir (r : ℕ) : String := cfg.workDir ++ "/round_" ++ toString r

def strategyNotePath (r : ℕ) : String := roundDir cfg r ++ "/strategy_note.txt"

def initial : State where
  stage := if cfg.rounds = 0 then .finished else .trainSolver
  round := 1
  currentModel := cfg.modelPath
  roundTrain := cfg.testFile
  prevMemory := ""
  prevStrategy := ""
  evaluatorUrl := cfg.studentEvalUrl
  evaluatorPid := none
  nextPid := 0
  notes := []
  live := []

/-- `stop_student_evaluator`: the process is killed and its pid forgotten. -/
def stopStudentEvaluator (s : State) : State :=
  match s.evaluatorPid with
  | some pid => { s with
      -- `EVALUATOR_URL` is not reset
      live := s.live.filter (·.pid ≠ pid)
      evaluatorPid := none }
  | none => s

/-- The `--strategy_note` argument, given if there is such a file. -/
def strategyArgs (s : State) : Option String :=
  if s.prevStrategy ≠ "" ∧ s.prevStrategy ∈ s.notes then some s.prevStrategy
  else none

/-- The evaluator `start_student_evaluator` launches. -/
def launched (s : State) : Evaluator where
  pid := s.nextPid
  url := "http://127.0.0.1:" ++ cfg.studentEvalPort
  model := s.currentModel
  strategyNote := strategyArgs s
  startedRound := s.round

/-- `start_student_evaluator`: nothing to do if there is a URL already, an error
without a device, and a launch otherwise. -/
def startStudentEvaluator (s : State) : Option State :=
  if s.evaluatorUrl ≠ "" then some s
  else if cfg.studentEvalCudaVisibleDevices = "" then none
  else some { s with
    evaluatorUrl := (launched cfg s).url
    evaluatorPid := some s.nextPid
    nextPid := s.nextPid + 1
    live := s.live ++ [launched cfg s] }

/-- Somebody listens at the URL the programs are given. -/
def reachable (s : State) : Prop := ∃ p ∈ s.live, p.url = s.evaluatorUrl

instance (s : State) : Decidable (reachable s) :=
  inferInstanceAs (Decidable (∃ p ∈ s.live, p.url = s.evaluatorUrl))

/-- The assignments at the end of a round, and what comes next. -/
def nextRound (s : State) : State :=
  let s' := { s with
    roundTrain := roundDir cfg s.round ++ "/round_train.parquet"
    prevMemory := roundDir cfg s.round ++ "/memory.json"
    prevStrategy := strategyNotePath cfg s.round }
  if s.round < cfg.rounds then
    { s' with stage := .trainSolver, round := s.round + 1 }
  else stopStudentEvaluator { s' with stage := .finished }

/-- The running command succeeds. -/
def finish (s : State) : Option State :=
  match s.stage with
  | .trainSolver => some { s with
      -- without a checkpoint the model stays
      currentModel := if cfg.newSolverModel s.round = "" then s.currentModel
        else cfg.newSolverModel s.round
      stage := .extractFailed }
  | .extractFailed => some { s with stage := .reflect }
  | .reflect => some { s with
      -- `--strategy_out`, and the branch on `FAILED_COUNT`
      notes := strategyNotePath cfg s.round :: s.notes
      stage := if 0 < cfg.failedCount s.round then .startStudentEvaluator
        else .buildRoundDataset }
  | .startStudentEvaluator =>
      (startStudentEvaluator cfg s).map fun s =>
        { s with stage := .buildTeacherDataset }
  | .buildTeacherDataset => some { s with stage := .trainTeacher }
  | .trainTeacher => some { s with stage := .synthesize }
  | .synthesize =>
      -- an evaluator that does not answer is an error of `synthesize`
      if reachable s then some { s with stage := .stopStudentEvaluator }
      else none
  | .stopStudentEvaluator =>
      some { stopStudentEvaluator s with stage := .buildRoundDataset }
  | .buildRoundDataset => some (nextRound cfg s)
  | .finished | .aborted => none

def step (s : State) : Event → Option State
  | .done => finish cfg s
  | .fail =>
      if s.stage = .finished ∨ s.stage = .aborted then none
      else some { stopStudentEvaluator s with stage := .aborted }

def machine : Machine State Event := ⟨initial cfg, step cfg⟩

/-! ## What a step can do -/

/-- What the success of the running command does, command by command. -/
inductive Success (s : State) : State → Prop where
  | trainSolver (hstage : s.stage = .trainSolver) : Success s { s with
      currentModel := if cfg.newSolverModel s.round = "" then s.currentModel
        else cfg.newSolverModel s.round
      stage := .extractFailed }
  | extractFailed (hstage : s.stage = .extractFailed) :
      Success s { s with stage := .reflect }
  | reflect (hstage : s.stage = .reflect) : Success s { s with
      notes := strategyNotePath cfg s.round :: s.notes
      stage := if 0 < cfg.failedCount s.round then .startStudentEvaluator
        else .buildRoundDataset }
  | startStudentEvaluator {t : State} (hstage : s.stage = .startStudentEvaluator)
      (hstart : startStudentEvaluator cfg s = some t) :
      Success s { t with stage := .buildTeacherDataset }
  | buildTeacherDataset (hstage : s.stage = .buildTeacherDataset) :
      Success s { s with stage := .trainTeacher }
  | trainTeacher (hstage : s.stage = .trainTeacher) :
      Success s { s with stage := .synthesize }
  | synthesize (hstage : s.stage = .synthesize) (hanswers : reachable s) :
      Success s { s with stage := .stopStudentEvaluator }
  | stopStudentEvaluator (hstage : s.stage = .stopStudentEvaluator) :
      Success s { stopStudentEvaluator s with stage := .buildRoundDataset }
  | buildRoundDataset (hstage : s.stage = .buildRoundDataset) :
      Success s (nextRound cfg s)

variable {cfg} {s s' : State}

theorem success_of_finish (h : finish cfg s = some s') : Success cfg s s' := by
  unfold finish at h
  split at h
  case h_4 hstage =>
    obtain ⟨t, hstart, rfl⟩ := Option.map_eq_some_iff.mp h
    exact .startStudentEvaluator hstage hstart
  case h_7 hstage =>
    split_ifs at h with hanswers
    cases h
    exact .synthesize hstage hanswers
  case h_10 | h_11 => cases h
  all_goals
    cases h
    constructor
    assumption

/-- A failure ends a script that runs. -/
theorem step_fail_cases (h : step cfg s .fail = some s') :
    s.stage ≠ .finished ∧ s.stage ≠ .aborted ∧
      s' = { stopStudentEvaluator s with stage := .aborted } := by
  rw [step] at h
  split_ifs at h with hend
  obtain ⟨hfinished, haborted⟩ := not_or.mp hend
  exact ⟨hfinished, haborted, (Option.some.inj h).symm⟩

/-! ## The paths of different rounds -/

variable {r r' : ℕ}

theorem roundDir_inj : roundDir cfg r = roundDir cfg r' ↔ r = r' := by
  rw [roundDir, roundDir, String.append_right_inj, Text.toString_nat_inj]

theorem strategyNotePath_inj :
    strategyNotePath cfg r = strategyNotePath cfg r' ↔ r = r' := by
  rw [strategyNotePath, strategyNotePath, String.append_left_inj, roundDir_inj]

end TTSR.Loop
