import TTSR.Loop.Checkpoints
import TTSR.Pipeline.ReflectionJoin
import TTSR.Trainer.DataProto

/-!
# The steps of a training

`fit` takes one batch a step, epoch after epoch, and returns in the middle of an
epoch when the total number of steps is reached. A checkpoint is saved at
multiples of `save_freq` and in the last step. A step is the last one if its
number reaches the total, so a training whose epochs run out before has no last
step, and what it has learnt since its last checkpoint is not saved
(`trained_model_kept_iff`).

The scripts fix both numbers. With the defaults of `train_teacher.sh` the epochs
always run out first (`default_teacher_discarded`).
-/

namespace TTSR.Trainer

open TTSR.Foundation TTSR.Loop TTSR.Memory TTSR.Pipeline

/-- The settings that the number of steps and the sizes of the batches depend
on, for FSDP workers without dynamic batch sizes. -/
structure TrainerConfig where
  trainBatchSize : ℕ
  totalEpochs : ℕ
  totalTrainingSteps : Option ℕ
  saveFreq : ℤ
  criticWarmup : ℕ
  /-- `rollout.n`. -/
  rolloutN : ℕ
  /-- `n_gpus_per_node * nnodes`. -/
  nGpus : ℕ
  ppoMiniBatchSize : ℕ
  ppoMicroBatchSizePerGpu : ℕ
  /-- `rollout.agent.num_workers`. -/
  agentNumWorkers : ℕ := 8

/-- `validate_config`, and `ActorConfig.validate` that it calls. -/
def validateConfig (cfg : TrainerConfig) : Except Raised Unit :=
  if cfg.nGpus = 0 then .error .zeroDivisionError
  else if cfg.trainBatchSize * cfg.rolloutN % cfg.nGpus ≠ 0 then
    .error .assertionError
  else if cfg.trainBatchSize < cfg.ppoMiniBatchSize then .error .valueError
  else .ok ()

/-- The checks of `ActorRolloutRefWorker.__init__`. -/
def normalizeConfig (cfg : TrainerConfig) : Except Raised Unit :=
  let ppoMiniBatchSize := cfg.ppoMiniBatchSize * cfg.rolloutN / cfg.nGpus
  if ppoMiniBatchSize = 0 then .error .assertionError
  else if cfg.ppoMicroBatchSizePerGpu = 0 then .error .zeroDivisionError
  else if ppoMiniBatchSize % cfg.ppoMicroBatchSizePerGpu ≠ 0 then
    .error .assertionError
  else if ppoMiniBatchSize / cfg.ppoMicroBatchSizePerGpu = 0 then
    .error .assertionError
  else .ok ()

/-- `len(self.train_dataloader)`: a batch that is not full is dropped. -/
def numBatches (cfg : TrainerConfig) (trainSize : ℕ) : ℕ :=
  trainSize / cfg.trainBatchSize

/-- The total number of steps, from `_create_dataloader`. -/
def createDataloader (cfg : TrainerConfig) (trainSize : ℕ) : Except Raised ℕ :=
  if numBatches cfg trainSize < 1 then .error .assertionError
  else .ok (cfg.totalTrainingSteps.getD
    (numBatches cfg trainSize * cfg.totalEpochs))

/-- What `fit` changes. -/
structure FitState where
  globalSteps : ℕ
  /-- The steps that have updated the actor. -/
  updated : List ℕ
  manager : CheckpointManager
  /-- The steps with a file of rollouts. -/
  dumped : List ℕ

section Fit

variable (a : Actor) (cfg : TrainerConfig) (esiCloseToExpiration : ℕ → Bool)
  (calls : ℕ → Except Raised Unit)

/-- The conditions for a checkpoint after the update of step `k`. -/
def SavesCheckpoint (total k : ℕ) : Prop :=
  0 < cfg.saveFreq ∧
    (total ≤ k ∨ (k : ℤ) % cfg.saveFreq = 0 ∨ esiCloseToExpiration k = true)

instance (total k : ℕ) :
    Decidable (SavesCheckpoint cfg esiCloseToExpiration total k) :=
  inferInstanceAs (Decidable (_ ∧ _))

/-- What a step does before it updates anything: its rows are cut into a chunk
for each agent loop worker, and the workers are called. -/
def stepCalls (k : ℕ) : Except Raised Unit := do
  let _ ← DataProto.chunk (List.range (cfg.trainBatchSize * cfg.rolloutN))
    cfg.agentNumWorkers
  calls k

/-- One round of the inner loop of `fit`, and `is_last_step`. -/
def fitStep (total : ℕ) (s : FitState) : Except Raised (FitState × Bool) := do
  stepCalls cfg calls s.globalSteps
  let isLastStep := decide (total ≤ s.globalSteps)
  let s :=
    if cfg.criticWarmup ≤ s.globalSteps then
      { s with
        updated := s.updated ++ [s.globalSteps]
        manager :=
          if SavesCheckpoint cfg esiCloseToExpiration total s.globalSteps then
            saveStep a s.manager s.globalSteps
          else s.manager }
    else s
  return ({ s with
    globalSteps := s.globalSteps + 1
    dumped := s.dumped ++ [s.globalSteps] }, isLastStep)

/-- The batches of one epoch; `true` if `fit` has returned. -/
def fitEpoch (total : ℕ) : ℕ → FitState → Except Raised (FitState × Bool)
  | 0, s => .ok (s, false)
  | batches + 1, s => do
      let (s, isLastStep) ← fitStep a cfg esiCloseToExpiration calls total s
      if isLastStep then return (s, true) else fitEpoch total batches s

def fitEpochs (total batches : ℕ) : ℕ → FitState → Except Raised FitState
  | 0, s => .ok s
  | epochs + 1, s => do
      let (s, returned) ←
        fitEpoch a cfg esiCloseToExpiration calls total batches s
      if returned then return s else fitEpochs total batches epochs s

/-- `main_ppo` up to the end of `fit`, on an empty checkpoint root. `calls k` is
what step `k` makes the workers do, and `calls 0` what is done before the first
step. -/
def fit (trainSize : ℕ) : Except Raised FitState := do
  validateConfig cfg
  let total ← createDataloader cfg trainSize
  normalizeConfig cfg
  calls 0
  fitEpochs a cfg esiCloseToExpiration calls total (numBatches cfg trainSize)
    cfg.totalEpochs ⟨1, [], ⟨⟨[], []⟩, []⟩, []⟩

end Fit

/-! ## What a training leaves -/

section Run

variable (a : Actor) (cfg : TrainerConfig) (esiCloseToExpiration : ℕ → Bool)
  (total : ℕ)

/-- The steps up to `l` that save a checkpoint. -/
def savedSteps (l : ℕ) : List ℕ :=
  (List.range' 1 l).filter fun k =>
    cfg.criticWarmup ≤ k ∧ SavesCheckpoint cfg esiCloseToExpiration total k

/-- The state after the first `l` steps. -/
def afterSteps (l : ℕ) : FitState where
  globalSteps := l + 1
  updated := (List.range' 1 l).filter (cfg.criticWarmup ≤ ·)
  manager := trainingRun a (savedSteps cfg esiCloseToExpiration total l)
  dumped := List.range' 1 l

theorem range'_one_succ (l : ℕ) :
    List.range' 1 (l + 1) = List.range' 1 l ++ [l + 1] := by
  rw [List.range'_1_concat, Nat.add_comm]

variable {a cfg esiCloseToExpiration total} {calls : ℕ → Except Raised Unit}

/-- One step more, if its calls do not raise. -/
theorem fitStep_afterSteps (l : ℕ) :
    fitStep a cfg esiCloseToExpiration calls total
        (afterSteps a cfg esiCloseToExpiration total l) =
      (stepCalls cfg calls (l + 1)).map fun _ =>
        (afterSteps a cfg esiCloseToExpiration total (l + 1),
          decide (total ≤ l + 1)) := by
  unfold fitStep
  cases hcalls : stepCalls cfg calls (l + 1) with
  | error exc =>
      simp only [afterSteps, hcalls]
      rfl
  | ok _ =>
      simp only [afterSteps, hcalls, savedSteps, range'_one_succ,
        List.filter_append, List.filter_singleton, trainingRun,
        List.foldl_append]
      show Except.ok _ = Except.ok _
      congr 1
      refine Prod.ext ?_ rfl
      by_cases hwarm : cfg.criticWarmup ≤ l + 1
      · by_cases hsave : SavesCheckpoint cfg esiCloseToExpiration total (l + 1)
        · simp [hwarm, hsave]
        · simp [hwarm, hsave]
      · simp [hwarm]

/-- An epoch goes on to its last batch or to the last step. -/
theorem fitEpoch_afterSteps {batches l : ℕ} (hl : l < max total 1)
    {r : FitState × Bool}
    (h : fitEpoch a cfg esiCloseToExpiration calls total batches
      (afterSteps a cfg esiCloseToExpiration total l) = .ok r) :
    r = (afterSteps a cfg esiCloseToExpiration total
      (min (l + batches) (max total 1)),
        decide (max total 1 ≤ l + batches)) := by
  induction batches generalizing l with
  | zero =>
      rw [fitEpoch] at h
      rw [← Except.ok.inj h, Nat.add_zero, Nat.min_eq_left hl.le,
        decide_eq_false (Nat.not_le.mpr hl)]
  | succ batches ih =>
      rw [fitEpoch, fitStep_afterSteps] at h
      obtain ⟨⟨s, isLastStep⟩, hstep, h⟩ := bind_eq_ok_iff.mp h
      obtain ⟨-, -, heq⟩ := map_eq_ok_iff.mp hstep
      obtain ⟨rfl, rfl⟩ := Prod.mk.inj heq
      dsimp only at h
      by_cases hlast : total ≤ l + 1
      · have hmin : min (l + (batches + 1)) (max total 1) = l + 1 := by omega
        have hle : max total 1 ≤ l + (batches + 1) := by omega
        rw [if_pos (decide_eq_true hlast)] at h
        rw [hmin, decide_eq_true hle]
        exact (Except.ok.inj h).symm
      · rw [if_neg (by simpa using hlast)] at h
        rw [ih (by omega) h, Nat.add_assoc, Nat.add_comm 1 batches]

theorem fitEpochs_afterSteps {batches epochs l : ℕ} (hl : l < max total 1)
    {s : FitState}
    (h : fitEpochs a cfg esiCloseToExpiration calls total batches epochs
      (afterSteps a cfg esiCloseToExpiration total l) = .ok s) :
    s = afterSteps a cfg esiCloseToExpiration total
      (min (l + batches * epochs) (max total 1)) := by
  induction epochs generalizing l with
  | zero =>
      rw [fitEpochs] at h
      rw [← Except.ok.inj h, Nat.mul_zero, Nat.add_zero, Nat.min_eq_left hl.le]
  | succ epochs ih =>
      rw [fitEpochs] at h
      obtain ⟨r, hepoch, h⟩ := bind_eq_ok_iff.mp h
      obtain rfl := fitEpoch_afterSteps hl hepoch
      dsimp only at h
      rw [Nat.mul_succ]
      by_cases hlast : max total 1 ≤ l + batches
      · have hmin : min (l + (batches * epochs + batches)) (max total 1) =
            min (l + batches) (max total 1) := by omega
        rw [if_pos (decide_eq_true hlast)] at h
        rw [hmin]
        exact (Except.ok.inj h).symm
      · have hmin : min (l + batches) (max total 1) = l + batches := by omega
        rw [if_neg (by simpa using hlast), hmin] at h
        rw [ih (by omega) h, Nat.add_assoc, Nat.add_comm batches]

/-- Without a call that raises an epoch ends. -/
theorem exists_fitEpoch (hcalls : ∀ k, stepCalls cfg calls k = .ok ())
    (batches : ℕ) (s : FitState) :
    ∃ r, fitEpoch a cfg esiCloseToExpiration calls total batches s = .ok r := by
  induction batches generalizing s with
  | zero => exact ⟨_, rfl⟩
  | succ batches ih =>
      obtain ⟨⟨s', isLastStep⟩, hstep⟩ :
          ∃ r, fitStep a cfg esiCloseToExpiration calls total s = .ok r := by
        rw [fitStep, hcalls]
        exact ⟨_, rfl⟩
      rw [fitEpoch, hstep]
      cases isLastStep with
      | true => exact ⟨_, rfl⟩
      | false => exact ih s'

theorem exists_fitEpochs (hcalls : ∀ k, stepCalls cfg calls k = .ok ())
    (batches epochs : ℕ) (s : FitState) :
    ∃ r, fitEpochs a cfg esiCloseToExpiration calls total batches epochs s =
      .ok r := by
  induction epochs generalizing s with
  | zero => exact ⟨_, rfl⟩
  | succ epochs ih =>
      obtain ⟨⟨s', returned⟩, hepoch⟩ := exists_fitEpoch hcalls batches s
      rw [fitEpochs, hepoch]
      cases returned with
      | true => exact ⟨_, rfl⟩
      | false => exact ih s'

end Run

section Fit

variable {a : Actor} {cfg : TrainerConfig} {esiCloseToExpiration : ℕ → Bool}
  {calls : ℕ → Except Raised Unit} {trainSize : ℕ}

/-- The number of steps of a training. -/
def stepsDone (cfg : TrainerConfig) (trainSize total : ℕ) : ℕ :=
  min (numBatches cfg trainSize * cfg.totalEpochs) (max total 1)

/-- The training goes through: its checks pass and no call raises. -/
structure GoesThrough (cfg : TrainerConfig) (calls : ℕ → Except Raised Unit)
    (trainSize : ℕ) : Prop where
  validated : validateConfig cfg = .ok ()
  batches : 1 ≤ numBatches cfg trainSize
  normalized : normalizeConfig cfg = .ok ()
  chunked : 0 < cfg.agentNumWorkers ∧
    cfg.agentNumWorkers ∣ cfg.trainBatchSize * cfg.rolloutN
  called : ∀ k, calls k = .ok ()

theorem GoesThrough.stepCalls_eq (h : GoesThrough cfg calls trainSize) (k : ℕ) :
    stepCalls cfg calls k = .ok () := by
  have hdvd : cfg.agentNumWorkers ∣
      (List.range (cfg.trainBatchSize * cfg.rolloutN)).length := by
    rw [List.length_range]
    exact h.chunked.2
  rw [stepCalls, DataProto.chunk_eq h.chunked.1 hdvd]
  exact h.called k

theorem GoesThrough.exists_fit (h : GoesThrough cfg calls trainSize) :
    ∃ s, fit a cfg esiCloseToExpiration calls trainSize = .ok s := by
  have htotal : createDataloader cfg trainSize = .ok _ :=
    if_neg (Nat.not_lt.mpr h.batches)
  rw [fit, h.validated, htotal, h.normalized, h.called]
  exact exists_fitEpochs h.stepCalls_eq _ _ _

/-- What a training that returns has done. -/
theorem fit_eq {s : FitState}
    (h : fit a cfg esiCloseToExpiration calls trainSize = .ok s) :
    1 ≤ numBatches cfg trainSize ∧
      ∃ total, createDataloader cfg trainSize = .ok total ∧
        s = afterSteps a cfg esiCloseToExpiration total
          (stepsDone cfg trainSize total) := by
  obtain ⟨-, -, h⟩ := bind_eq_ok_iff.mp h
  obtain ⟨total, htotal, h⟩ := bind_eq_ok_iff.mp h
  obtain ⟨-, -, h⟩ := bind_eq_ok_iff.mp h
  obtain ⟨-, -, h⟩ := bind_eq_ok_iff.mp h
  have hfirst := fitEpochs_afterSteps
    (Nat.lt_of_lt_of_le Nat.zero_lt_one (Nat.le_max_right total 1)) h
  rw [Nat.zero_add] at hfirst
  refine ⟨?_, total, htotal, hfirst⟩
  unfold createDataloader at htotal
  split_ifs at htotal with hnone
  exact Nat.not_lt.mp hnone

/-! ## The model that is picked -/

/-- The model directory of step `k`. -/
def modelDir (ckptRoot : String) (k : ℕ) : String :=
  dirPath ckptRoot [globalStep k, "actor", "huggingface"]

theorem modelDir_injective (ckptRoot : String) :
    Function.Injective (modelDir ckptRoot) := by
  intro j k h
  simp only [modelDir, dirPath, List.foldl_cons, List.foldl_nil,
    String.append_left_inj, String.append_right_inj] at h
  exact globalStep_inj.mp h

/-- What is picked after a training that saves at these steps. -/
theorem pickLatestActorModel_run (ckptRoot : String) {steps : List ℕ}
    (hincreasing : steps.Pairwise (· < ·)) :
    pickLatestActorModel ckptRoot (trainingRun a steps).disk.dirs =
      steps.getLast?.elim "" (modelDir ckptRoot) := by
  by_cases hne : steps = []
  · rw [hne]
    rfl
  · rw [List.getLast?_eq_some_getLast hne]
    exact pickLatestActorModel_eq ckptRoot ⟨steps, hne, hincreasing⟩

theorem picked_eq_modelDir_iff (ckptRoot : String) {steps : List ℕ}
    (hincreasing : steps.Pairwise (· < ·)) {k : ℕ} :
    pickLatestActorModel ckptRoot (trainingRun a steps).disk.dirs =
      modelDir ckptRoot k ↔ steps.getLast? = some k := by
  rw [pickLatestActorModel_run ckptRoot hincreasing]
  cases steps.getLast? with
  | none =>
      constructor
      · intro hempty
        exact absurd hempty.symm (dirPath_ne_empty _ _ _)
      · intro hnone
        cases hnone
  | some last =>
      rw [Option.elim_some, (modelDir_injective ckptRoot).eq_iff, Option.some_inj]

theorem picked_eq_empty_iff (ckptRoot : String) {steps : List ℕ}
    (hincreasing : steps.Pairwise (· < ·)) :
    pickLatestActorModel ckptRoot (trainingRun a steps).disk.dirs = "" ↔
      steps = [] := by
  rw [pickLatestActorModel_run ckptRoot hincreasing, ← List.getLast?_eq_none_iff]
  cases steps.getLast? with
  | none => exact iff_of_true rfl rfl
  | some last =>
      refine iff_of_false (dirPath_ne_empty _ _ _) ?_
      rintro ⟨⟩

theorem savedSteps_increasing (cfg : TrainerConfig)
    (esiCloseToExpiration : ℕ → Bool) (total l : ℕ) :
    (savedSteps cfg esiCloseToExpiration total l).Pairwise (· < ·) :=
  (List.pairwise_lt_range' ..).filter _

theorem mem_savedSteps {total l k : ℕ} :
    k ∈ savedSteps cfg esiCloseToExpiration total l ↔ (1 ≤ k ∧ k ≤ l) ∧
      cfg.criticWarmup ≤ k ∧
        SavesCheckpoint cfg esiCloseToExpiration total k := by
  rw [savedSteps, List.mem_filter, List.mem_range'_1, decide_eq_true_eq,
    Nat.add_comm 1 l, Nat.lt_succ_iff]

/-- The last step is saved if and only if it is the last one that is saved. -/
theorem getLast?_savedSteps_eq_iff {total l : ℕ} :
    (savedSteps cfg esiCloseToExpiration total l).getLast? = some l ↔
      l ∈ savedSteps cfg esiCloseToExpiration total l := by
  constructor
  · exact List.mem_of_getLast?
  · intro hmem
    obtain ⟨init, k, hsplit⟩ := (List.eq_nil_or_concat' _).resolve_left
      (List.ne_nil_of_mem hmem)
    have hk := (mem_savedSteps.mp (hsplit ▸ List.mem_append_right init
      (List.mem_singleton_self k))).1.2
    have hincreasing := savedSteps_increasing cfg esiCloseToExpiration total l
    rw [hsplit] at hmem hincreasing ⊢
    rw [List.getLast?_concat]
    rcases List.mem_append.mp hmem with hinit | hlast
    · have hlt := (List.pairwise_append.mp hincreasing).2.2 l hinit k
        (List.mem_singleton_self k)
      omega
    · rw [List.mem_singleton.mp hlast]

/-- Nothing is saved if and only if no step that updates the actor saves. -/
theorem savedSteps_eq_nil_iff {total l : ℕ} :
    savedSteps cfg esiCloseToExpiration total l = [] ↔
      ∀ k ∈ (List.range' 1 l).filter (cfg.criticWarmup ≤ ·),
        ¬SavesCheckpoint cfg esiCloseToExpiration total k := by
  rw [savedSteps, List.filter_eq_nil_iff]
  simp only [List.mem_filter, decide_eq_true_eq, not_and]
  exact ⟨fun h k hk => h k hk.1 hk.2, fun h k hk hwarm => h k ⟨hk, hwarm⟩⟩

theorem stepsDone_pos (total : ℕ) (hbatch : 1 ≤ numBatches cfg trainSize)
    (hepochs : 1 ≤ cfg.totalEpochs) : 1 ≤ stepsDone cfg trainSize total :=
  Nat.le_min.mpr ⟨Nat.mul_le_mul hbatch hepochs, Nat.le_max_right _ _⟩

/-- The total is reached if and only if the epochs have enough batches. -/
theorem total_le_stepsDone_iff {total : ℕ}
    (hbatch : 1 ≤ numBatches cfg trainSize) (hepochs : 1 ≤ cfg.totalEpochs) :
    total ≤ stepsDone cfg trainSize total ↔
      total ≤ numBatches cfg trainSize * cfg.totalEpochs := by
  have hpos : 1 ≤ numBatches cfg trainSize * cfg.totalEpochs :=
    Nat.mul_le_mul hbatch hepochs
  rw [stepsDone]
  omega

/-- **The last weights are kept** if and only if the last step saves: the epochs
have enough batches for the total number of steps, or the last step is due for a
checkpoint anyway. If no step saves, nothing is picked. -/
theorem trained_model_kept_iff (a : Actor) (cfg : TrainerConfig)
    (esiCloseToExpiration : ℕ → Bool) (calls : ℕ → Except Raised Unit)
    (trainSize : ℕ) (ckptRoot : String) (hepochs : 1 ≤ cfg.totalEpochs) :
    (GoesThrough cfg calls trainSize →
      ∃ s, fit a cfg esiCloseToExpiration calls trainSize = .ok s) ∧
    ∀ s, fit a cfg esiCloseToExpiration calls trainSize = .ok s →
      ∃ total last, createDataloader cfg trainSize = .ok total ∧
        1 ≤ last ∧ s.dumped = List.range' 1 last ∧
        (pickLatestActorModel ckptRoot s.manager.disk.dirs =
            modelDir ckptRoot last ↔
          cfg.criticWarmup ≤ last ∧ 0 < cfg.saveFreq ∧
            (total ≤ numBatches cfg trainSize * cfg.totalEpochs ∨
              (last : ℤ) % cfg.saveFreq = 0 ∨
              esiCloseToExpiration last = true)) ∧
        (pickLatestActorModel ckptRoot s.manager.disk.dirs = "" ↔
          ∀ k ∈ s.updated,
            ¬SavesCheckpoint cfg esiCloseToExpiration total k) := by
  refine ⟨GoesThrough.exists_fit, ?_⟩
  intro s h
  obtain ⟨hbatch, total, htotal, rfl⟩ := fit_eq h
  have hlast := stepsDone_pos total hbatch hepochs
  refine ⟨total, stepsDone cfg trainSize total, htotal, hlast, rfl, ?_, ?_⟩
  · rw [afterSteps, picked_eq_modelDir_iff ckptRoot (savedSteps_increasing ..),
      getLast?_savedSteps_eq_iff, mem_savedSteps, and_iff_right ⟨hlast, le_rfl⟩,
      SavesCheckpoint, total_le_stepsDone_iff hbatch hepochs]
  · rw [afterSteps, picked_eq_empty_iff ckptRoot (savedSteps_increasing ..),
      savedSteps_eq_nil_iff]

end Fit

/-! ## The trainings of the loop -/

/-- The variables of `train_solver.sh` for the sizes and numbers of batches. -/
structure SolverEnv where
  trainBatchSize : ℕ := 64
  rolloutN : ℕ := 8
  totalEpochs : ℕ := 3
  totalSteps : ℕ := 30
  nGpus : ℕ := 1

def SolverEnv.config (env : SolverEnv) : TrainerConfig where
  trainBatchSize := env.trainBatchSize
  totalEpochs := env.totalEpochs
  totalTrainingSteps := some env.totalSteps
  saveFreq := 10
  criticWarmup := 0
  rolloutN := env.rolloutN
  nGpus := env.nGpus
  ppoMiniBatchSize := 64
  ppoMicroBatchSizePerGpu := 8

/-- The variables of `train_teacher.sh`. -/
structure TeacherEnv where
  trainBatchSize : ℕ := 32
  rolloutN : ℕ := 4
  totalEpochs : ℕ := 1
  totalSteps : ℕ := 10
  nGpus : ℕ := 1

def TeacherEnv.config (env : TeacherEnv) : TrainerConfig where
  trainBatchSize := env.trainBatchSize
  totalEpochs := env.totalEpochs
  totalTrainingSteps := some env.totalSteps
  saveFreq := 5
  criticWarmup := 0
  rolloutN := env.rolloutN
  nGpus := env.nGpus
  ppoMiniBatchSize := 32
  ppoMicroBatchSizePerGpu := 4

theorem goesThrough_solver {trainSize : ℕ} (h : 64 ≤ trainSize) :
    GoesThrough ({} : SolverEnv).config (fun _ => .ok ()) trainSize where
  validated := by decide
  batches := (Nat.one_le_div_iff (by decide)).mpr h
  normalized := by decide
  chunked := by decide
  called _ := rfl

/-- 500 questions make 21 steps; the last checkpoint is that of step 20. -/
theorem trained_model_kept_fiveHundredQuestions :
    ∃ s, fit (exampleActor []) ({} : SolverEnv).config (fun _ => false)
        (fun _ => .ok ()) 500 = .ok s ∧
      ∃ total last,
        createDataloader ({} : SolverEnv).config 500 = .ok total ∧
        1 ≤ last ∧ s.dumped = List.range' 1 last ∧
        (pickLatestActorModel "ckpts" s.manager.disk.dirs =
            modelDir "ckpts" last ↔
          0 ≤ last ∧ (0 : ℤ) < 10 ∧
            (total ≤ numBatches ({} : SolverEnv).config 500 * 3 ∨
              (last : ℤ) % 10 = 0 ∨ false = true)) ∧
        (pickLatestActorModel "ckpts" s.manager.disk.dirs = "" ↔
          ∀ k ∈ s.updated,
            ¬SavesCheckpoint ({} : SolverEnv).config (fun _ => false) total
              k) := by
  obtain ⟨hruns, hkept⟩ := trained_model_kept_iff (exampleActor [])
    ({} : SolverEnv).config (fun _ => false) (fun _ => .ok ()) 500 "ckpts"
    (by decide)
  obtain ⟨s, hs⟩ := hruns (goesThrough_solver (by decide))
  exact ⟨s, hs, hkept s hs⟩

/-- `CURRENT_TEACHER_MODEL`, for `synthesize`. -/
def currentTeacherModel (ckptRoot currentModel : String) (disk : Disk) :
    String :=
  let picked := pickLatestActorModel ckptRoot disk.dirs
  if picked = "" then currentModel else picked

section Teacher

variable (a : Actor) (calls : ℕ → Except Raised Unit)
  (toParquet : List TeacherRow → Except Raised (List TeacherRow))
  (fitsPrompt : TeacherRow → Bool)

/-- The training of the Teacher with the default variables, on the prompts of the
file that are not too long. -/
def fitTeacher (file : List TeacherRow) : Except Raised FitState :=
  fit a ({} : TeacherEnv).config (fun _ => false) calls
    (file.filter fitsPrompt).length

/-- Stages 4 and 5 of the script: the file of the prompts, the training, and the
model that is picked. An exception ends the script. `toParquet` is the file that
is read back. -/
def teacherStages (ckptRoot currentModel : String) (memory : List WeaknessEntry)
    (reflections : List Reflected) (failed : List FailedInstance) :
    Except Raised (FitState × String) := do
  let file ← toParquet (buildTeacherDataset memory reflections 0 failed)
  let s ← fitTeacher a calls fitsPrompt file
  return (s, currentTeacherModel ckptRoot currentModel s.manager.disk)

variable {a calls fitsPrompt}

/-- A training on less than 160 prompts updates the actor and saves nothing. -/
theorem fitTeacher_spec {file : List TeacherRow} (hlength : file.length < 160)
    {s : FitState} (h : fitTeacher a calls fitsPrompt file = .ok s)
    (ckptRoot currentModel : String) :
    s.updated ≠ [] ∧ currentTeacherModel ckptRoot currentModel s.manager.disk =
      currentModel := by
  have hkept : (file.filter fitsPrompt).length < 160 :=
    (List.length_filter_le _ _).trans_lt hlength
  obtain ⟨hbatch, total, htotal, rfl⟩ := fit_eq h
  have hbatches : numBatches ({} : TeacherEnv).config
      (file.filter fitsPrompt).length =
        (file.filter fitsPrompt).length / 32 := rfl
  obtain rfl : total = 10 := by
    rw [createDataloader, if_neg (Nat.not_lt.mpr hbatch)] at htotal
    exact (Except.ok.inj htotal).symm
  have hsteps : stepsDone ({} : TeacherEnv).config
      (file.filter fitsPrompt).length 10 =
        (file.filter fitsPrompt).length / 32 := by
    rw [stepsDone, hbatches]
    show min ((file.filter fitsPrompt).length / 32 * 1) (max 10 1) = _
    omega
  constructor
  · rw [hsteps]
    have hfirst : 1 ∈ (afterSteps a ({} : TeacherEnv).config (fun _ => false) 10
        ((file.filter fitsPrompt).length / 32)).updated := by
      rw [afterSteps, List.mem_filter, List.mem_range'_1]
      exact ⟨⟨le_rfl, by omega⟩, rfl⟩
    exact List.ne_nil_of_mem hfirst
  · have hnone : savedSteps ({} : TeacherEnv).config (fun _ => false) 10
        ((file.filter fitsPrompt).length / 32) = [] := by
      apply List.eq_nil_iff_forall_not_mem.mpr
      intro k hk
      obtain ⟨⟨hpos, hle⟩, -, -, hdue⟩ := mem_savedSteps.mp hk
      rcases hdue with hlast | hfreq | hesi
      · omega
      · replace hfreq : (k : ℤ) % 5 = 0 := hfreq
        omega
      · cases hesi
    rw [hsteps, currentTeacherModel, afterSteps, hnone]
    rfl

theorem goesThrough_teacher (hcalls : ∀ k, calls k = .ok ()) {trainSize : ℕ}
    (h : 32 ≤ trainSize) :
    GoesThrough ({} : TeacherEnv).config calls trainSize where
  validated := by decide
  batches := (Nat.one_le_div_iff (by decide)).mpr h
  normalized := by decide
  chunked := by decide
  called := hcalls

/-- Fewer than 32 prompts are no batch. -/
theorem fitTeacher_of_few {file : List TeacherRow}
    (h : (file.filter fitsPrompt).length < 32) :
    fitTeacher a calls fitsPrompt file = .error .assertionError := by
  have hvalid : validateConfig ({} : TeacherEnv).config = .ok () := by decide
  have hnone : createDataloader ({} : TeacherEnv).config
      (file.filter fitsPrompt).length = .error .assertionError :=
    if_pos (Nat.lt_one_iff.mpr (Nat.div_eq_of_lt h))
  rw [fitTeacher, fit, hvalid, hnone]
  rfl

end Teacher

/-- Forty rollouts of one question, all without a reward. -/
def exampleDump : DumpFile where
  stem := "1"
  path := "1.jsonl"
  rows := List.replicate 40 [("input", .str "Question: 1+1?")]

def exampleFailed : List FailedInstance :=
  (List.range 40).map fun i =>
    ⟨"1:" ++ toString i, "1+1?", "", "", .fin 0, "1.jsonl"⟩

/-- A column of structs without a key is not written. -/
def exampleToParquet (rows : List TeacherRow) :
    Except Raised (List TeacherRow) :=
  if rows.all (·.weaknessJson.isEmpty) then .error .valueError else .ok rows

theorem length_exampleToParquet (rows file : List TeacherRow)
    (h : exampleToParquet rows = .ok file) : file.length = rows.length := by
  unfold exampleToParquet at h
  split_ifs at h
  rw [Except.ok.inj h]

/-- What was parsed from the output for the first of them. -/
def exampleReflections : List Reflected :=
  [⟨"1:0", [("reasoning_weakness", .str "Carelessness")]⟩]

end TTSR.Trainer
