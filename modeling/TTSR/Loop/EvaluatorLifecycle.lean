import Mathlib.Data.Nat.Find
import TTSR.Loop.Rounds

/-!
# The life of the Student evaluator

Teacher training and synthesis need an evaluator that runs the Student of the
round. `stop_student_evaluator` kills the process and clears its pid, but leaves
`EVALUATOR_URL` set, so the next `start_student_evaluator` finds a URL and
launches nothing: from the second round with failures on nobody listens there.

`evaluator_serves_iff` says that this is the only thing that can go wrong: the
evaluator is the right one at every moment of every run if and only if at most
one round has failures.
-/

namespace TTSR.Loop

open TTSR.Foundation

/-! ## What should hold -/

/-- The model the Student training of round `r` leaves in `CURRENT_MODEL`. -/
def modelAfter (cfg : Config) : ℕ → String
  | 0 => cfg.modelPath
  | r + 1 => if cfg.newSolverModel (r + 1) = "" then modelAfter cfg r
      else cfg.newSolverModel (r + 1)

/-- `PREV_STRATEGY` in round `r`, if it is set. -/
def strategyOf (cfg : Config) (r : ℕ) : Option String :=
  if r ≤ 1 then none else some (strategyNotePath cfg (r - 1))

/-- An evaluator is alive at `EVALUATOR_URL`, started in this round with the
model of this round's training and the strategy note of this round. -/
def Served (cfg : Config) (s : State) : Prop :=
  ∃ p ∈ s.live, p.url = s.evaluatorUrl ∧ p.startedRound = s.round ∧
    p.model = modelAfter cfg s.round ∧ p.strategyNote = strategyOf cfg s.round

/-- Teacher training or synthesis is running. -/
def NeedsEvaluator (s : State) : Prop :=
  s.stage = .trainTeacher ∨ s.stage = .synthesize

/-- At most one of the rounds has failed instances. -/
def AtMostOneFailing (cfg : Config) : Prop :=
  ∀ r r', 1 ≤ r → r < r' → r' ≤ cfg.rounds →
    ¬ (0 < cfg.failedCount r ∧ 0 < cfg.failedCount r')

/-! ## The shell variables of a round -/

/-- The commands before the evaluator of the round is there. -/
def Stage.beforeEvaluator : Stage → Bool
  | .trainSolver | .extractFailed | .reflect | .startStudentEvaluator => true
  | _ => false

/-- The commands from the start of the evaluator to its stop. -/
def Stage.withEvaluator : Stage → Bool
  | .buildTeacherDataset | .trainTeacher | .synthesize
  | .stopStudentEvaluator => true
  | _ => false

/-- The commands of the branch for rounds with failures. -/
def Stage.inBranch (st : Stage) : Bool :=
  st.withEvaluator || st == .startStudentEvaluator

/-- The commands after the strategy note of the round has been written. -/
def Stage.afterReflect (st : Stage) : Bool :=
  st.inBranch || st == .buildRoundDataset

/-- The script is inside a round. -/
def Stage.running : Stage → Bool
  | .finished | .aborted => false
  | _ => true

/-- What the shell variables hold while a round runs. -/
structure Vars (cfg : Config) (s : State) : Prop where
  first : 1 ≤ s.round
  last : s.round ≤ cfg.rounds
  untrained : s.stage = .trainSolver →
    s.currentModel = modelAfter cfg (s.round - 1)
  trained : s.stage ≠ .trainSolver → s.currentModel = modelAfter cfg s.round
  strategy : s.prevStrategy =
    if s.round ≤ 1 then "" else strategyNotePath cfg (s.round - 1)
  note : 1 < s.round → strategyNotePath cfg (s.round - 1) ∈ s.notes
  noteNow : s.stage.afterReflect = true →
    strategyNotePath cfg s.round ∈ s.notes
  failing : s.stage.inBranch = true → 0 < cfg.failedCount s.round

variable {cfg : Config} {s s' : State} {e : Event}

/-- A script that still runs has not failed. -/
theorem finish_of_running (h : step cfg s e = some s')
    (hrun : s'.stage.running = true) : finish cfg s = some s' := by
  cases e with
  | done => exact h
  | fail =>
      obtain ⟨-, -, rfl⟩ := step_fail_cases h
      cases hrun

/-- A successful command was running. -/
theorem running_of_finish (h : finish cfg s = some s') :
    s.stage.running = true := by
  cases success_of_finish h with
  | _ hstage =>
      rw [hstage]
      rfl

theorem initial_vars (hrun : (initial cfg).stage.running = true) :
    Vars cfg (initial cfg) := by
  have hrounds : cfg.rounds ≠ 0 := by
    intro hzero
    simp [initial, hzero, Stage.running] at hrun
  have hstage : (initial cfg).stage = .trainSolver := by simp [initial, hrounds]
  constructor
  · exact Nat.le_refl 1
  · exact Nat.one_le_iff_ne_zero.mpr hrounds
  · intro _
    rfl
  · intro hne
    exact absurd hstage hne
  · rfl
  · intro hround
    exact absurd hround (Nat.lt_irrefl 1)
  · intro hlate
    rw [hstage] at hlate
    cases hlate
  · intro hlate
    rw [hstage] at hlate
    cases hlate

/-- The Student training of a round assigns its model. -/
theorem modelAfter_trained (cfg : Config) {r : ℕ} (hr : 1 ≤ r) :
    modelAfter cfg r = if cfg.newSolverModel r = "" then modelAfter cfg (r - 1)
      else cfg.newSolverModel r := by
  cases r with
  | zero => omega
  | succ r => rfl

/-- A launch, or the start of an evaluator that is there, keeps the variables of
the round. -/
theorem startStudentEvaluator_vars (h : startStudentEvaluator cfg s = some s') :
    s'.round = s.round ∧ s'.currentModel = s.currentModel ∧
      s'.prevStrategy = s.prevStrategy ∧ s'.notes = s.notes := by
  unfold startStudentEvaluator at h
  split_ifs at h
  · cases h
    exact ⟨rfl, rfl, rfl, rfl⟩
  · cases h
    exact ⟨rfl, rfl, rfl, rfl⟩

@[simp] theorem stopStudentEvaluator_round :
    (stopStudentEvaluator s).round = s.round := by
  unfold stopStudentEvaluator
  split <;> rfl

@[simp] theorem stopStudentEvaluator_currentModel :
    (stopStudentEvaluator s).currentModel = s.currentModel := by
  unfold stopStudentEvaluator
  split <;> rfl

@[simp] theorem stopStudentEvaluator_prevStrategy :
    (stopStudentEvaluator s).prevStrategy = s.prevStrategy := by
  unfold stopStudentEvaluator
  split <;> rfl

@[simp] theorem stopStudentEvaluator_notes :
    (stopStudentEvaluator s).notes = s.notes := by
  unfold stopStudentEvaluator
  split <;> rfl

@[simp] theorem stopStudentEvaluator_evaluatorUrl :
    (stopStudentEvaluator s).evaluatorUrl = s.evaluatorUrl := by
  unfold stopStudentEvaluator
  split <;> rfl

@[simp] theorem stopStudentEvaluator_stage :
    (stopStudentEvaluator s).stage = s.stage := by
  unfold stopStudentEvaluator
  split <;> rfl

/-- After `st` comes `st'`, in the same round and on the same branch. -/
def Stage.Follows (st st' : Stage) : Prop :=
  st ≠ .trainSolver ∧ st' ≠ .trainSolver ∧
    (st'.afterReflect = true → st.afterReflect = true) ∧
    (st'.inBranch = true → st.inBranch = true)

instance (st st' : Stage) : Decidable (st.Follows st') :=
  inferInstanceAs (Decidable (_ ∧ _ ∧ _ ∧ _))

/-- A command that assigns nothing of this, followed by another one. -/
theorem Vars.move {t : State} {st st' : Stage} (h : Vars cfg s)
    (hstage : s.stage = st) (hfollows : st.Follows st')
    (hround : t.round = s.round) (hmodel : t.currentModel = s.currentModel)
    (hprev : t.prevStrategy = s.prevStrategy) (hnotes : t.notes = s.notes) :
    Vars cfg { t with stage := st' } := by
  subst hstage
  obtain ⟨hfrom, hto, hlate, hbranch⟩ := hfollows
  constructor
  case first =>
    rw [hround]
    exact h.first
  case last =>
    rw [hround]
    exact h.last
  case untrained =>
    intro hsolver
    exact absurd hsolver hto
  case trained =>
    intro _
    rw [hmodel, hround]
    exact h.trained hfrom
  case strategy =>
    rw [hprev, hround]
    exact h.strategy
  case note =>
    rw [hround, hnotes]
    exact h.note
  case noteNow =>
    intro hstage
    rw [hround, hnotes]
    exact h.noteNow (hlate hstage)
  case failing =>
    intro hstage
    rw [hround]
    exact h.failing (hbranch hstage)

/-- The Student training assigns the model of the round. -/
theorem Vars.trainSolver (h : Vars cfg s) (hstage : s.stage = .trainSolver) :
    Vars cfg { s with
      currentModel := if cfg.newSolverModel s.round = "" then s.currentModel
        else cfg.newSolverModel s.round
      stage := .extractFailed } := by
  constructor
  case untrained =>
    intro hsolver
    cases hsolver
  case trained =>
    intro _
    rw [modelAfter_trained cfg h.first, h.untrained hstage]
  case noteNow =>
    intro hlate
    cases hlate
  case failing =>
    intro hbranch
    cases hbranch
  · exact h.first
  · exact h.last
  · exact h.strategy
  · exact h.note

/-- Reflection writes the note of the round, and the count decides the branch. -/
theorem Vars.reflect (h : Vars cfg s) (hstage : s.stage = .reflect) :
    Vars cfg { s with
      notes := strategyNotePath cfg s.round :: s.notes
      stage := if 0 < cfg.failedCount s.round then .startStudentEvaluator
        else .buildRoundDataset } := by
  have hfrom : s.stage ≠ .trainSolver := by simp [hstage]
  constructor
  case untrained =>
    intro hsolver
    have hne : (if 0 < cfg.failedCount s.round then Stage.startStudentEvaluator
        else .buildRoundDataset) = .trainSolver := hsolver
    split_ifs at hne
  case trained =>
    intro _
    exact h.trained hfrom
  case note =>
    intro hround
    exact List.mem_cons_of_mem _ (h.note hround)
  case noteNow =>
    intro _
    exact List.mem_cons_self
  case failing =>
    intro hbranch
    by_contra hzero
    rw [if_neg hzero] at hbranch
    cases hbranch
  · exact h.first
  · exact h.last
  · exact h.strategy

/-- The end of a round that is not the last. -/
theorem Vars.nextRound (h : Vars cfg s) (hstage : s.stage = .buildRoundDataset)
    (hlt : s.round < cfg.rounds) : Vars cfg (nextRound cfg s) := by
  have hnow : strategyNotePath cfg s.round ∈ s.notes :=
    h.noteNow (by rw [hstage]; rfl)
  have hfirst := h.first
  rw [Loop.nextRound, if_pos hlt]
  have hgt : ¬ s.round + 1 ≤ 1 := by omega
  constructor
  case untrained =>
    intro _
    exact h.trained (by simp [hstage])
  case trained =>
    intro hne
    exact absurd rfl hne
  case strategy => exact (if_neg hgt).symm
  case note =>
    intro _
    exact hnow
  case noteNow =>
    intro hlate
    cases hlate
  case failing =>
    intro hbranch
    cases hbranch
  · exact Nat.succ_le_succ (Nat.zero_le _)
  · exact hlt

/-- Every command keeps what the variables of a round say. -/
theorem Vars.finish (h : Vars cfg s) (hf : finish cfg s = some s')
    (hrun : s'.stage.running = true) : Vars cfg s' := by
  cases success_of_finish hf with
  | trainSolver hstage => exact h.trainSolver hstage
  | reflect hstage => exact h.reflect hstage
  | startStudentEvaluator hstage hstart =>
      obtain ⟨hround, hmodel, hprev, hnotes⟩ :=
        startStudentEvaluator_vars hstart
      exact h.move hstage (by decide) hround hmodel hprev hnotes
  | stopStudentEvaluator hstage =>
      exact h.move hstage (by decide) stopStudentEvaluator_round
        stopStudentEvaluator_currentModel stopStudentEvaluator_prevStrategy
        stopStudentEvaluator_notes
  | buildRoundDataset hstage =>
      by_cases hlt : s.round < cfg.rounds
      · exact h.nextRound hstage hlt
      · rw [Loop.nextRound, if_neg hlt, stopStudentEvaluator_stage] at hrun
        cases hrun
  | extractFailed hstage | buildTeacherDataset hstage | trainTeacher hstage
  | synthesize hstage =>
      exact h.move hstage (by decide) rfl rfl rfl rfl

theorem reachable_vars (h : (machine cfg).Reachable s)
    (hrun : s.stage.running = true) : Vars cfg s := by
  revert hrun
  refine Machine.ReachableIf.invariant
    (I := fun s => s.stage.running = true → Vars cfg s) initial_vars ?_ h
  intro s e s' _ ih _ hs hrun
  have hf := finish_of_running hs hrun
  exact (ih (running_of_finish hf)).finish hf hrun

theorem strategyNotePath_ne (cfg : Config) (r : ℕ) :
    strategyNotePath cfg r ≠ "" := by
  intro hempty
  have hlist := congrArg String.toList hempty
  simp [strategyNotePath] at hlist

/-- The evaluator launched in a round gets the strategy note of the round. -/
theorem strategyArgs_eq (h : Vars cfg s) :
    strategyArgs s = strategyOf cfg s.round := by
  unfold strategyArgs strategyOf
  rw [h.strategy]
  split_ifs with hround hcond hcond
  · exact absurd rfl hcond.1
  · rfl
  · rfl
  · exact absurd ⟨strategyNotePath_ne cfg _, h.note (by omega)⟩ hcond

/-! ## The evaluator of a round -/

/-- No round before `r` has failures. -/
def NoneBefore (cfg : Config) (r : ℕ) : Prop :=
  ∀ r', 1 ≤ r' → r' < r → cfg.failedCount r' = 0

theorem noneBefore_one : NoneBefore cfg 1 := by
  intro r' hpos hlt
  omega

theorem noneBefore_succ {r : ℕ} (hr : 1 ≤ r) :
    NoneBefore cfg (r + 1) ↔ NoneBefore cfg r ∧ cfg.failedCount r = 0 := by
  constructor
  · intro h
    exact ⟨fun r' hpos hlt => h r' hpos (by omega), h r hr (by omega)⟩
  · rintro ⟨h, hr0⟩ r' hpos hlt
    rcases Nat.lt_succ_iff_lt_or_eq.mp hlt with hlt | rfl
    · exact h r' hpos hlt
    · exact hr0

/-- The one evaluator alive is the script's own, and the right one. -/
def Owned (cfg : Config) (s : State) : Prop :=
  ∃ p, s.live = [p] ∧ s.evaluatorPid = some p.pid ∧ p.url = s.evaluatorUrl ∧
    p.startedRound = s.round ∧ p.model = modelAfter cfg s.round ∧
    p.strategyNote = strategyOf cfg s.round

theorem Owned.served (h : Owned cfg s) : Served cfg s := by
  obtain ⟨p, hlive, -, hurl, hround, hmodel, hnote⟩ := h
  refine ⟨p, ?_, hurl, hround, hmodel, hnote⟩
  rw [hlive]
  exact List.mem_singleton_self p

theorem Served.reachable (h : Served cfg s) : reachable s := by
  obtain ⟨p, hp, hurl, -⟩ := h
  exact ⟨p, hp, hurl⟩

/-- What is alive while a round runs, exactly: before the evaluator and after
it nothing is, and in between it is there if and only if no earlier round had
failures, which is also when `EVALUATOR_URL` was empty. -/
structure EvaluatorInv (cfg : Config) (s : State) : Prop where
  before : s.stage.beforeEvaluator = true →
    s.live = [] ∧ (s.evaluatorUrl = "" ↔ NoneBefore cfg s.round)
  owned : s.stage.withEvaluator = true → NoneBefore cfg s.round → Owned cfg s
  stale : s.stage.withEvaluator = true → ¬ NoneBefore cfg s.round → s.live = []
  url : s.stage.withEvaluator = true → s.evaluatorUrl ≠ ""
  after : s.stage = .buildRoundDataset →
    s.live = [] ∧ (s.evaluatorUrl = "" ↔ NoneBefore cfg (s.round + 1))

theorem initial_evaluatorInv (hurl : cfg.studentEvalUrl = "") :
    EvaluatorInv cfg (initial cfg) := by
  have hempty : (initial cfg).live = [] ∧
      ((initial cfg).evaluatorUrl = "" ↔ NoneBefore cfg (initial cfg).round) :=
    ⟨rfl, iff_of_true hurl noneBefore_one⟩
  by_cases hrounds : cfg.rounds = 0
  · constructor <;>
      simp [initial, hrounds, Stage.beforeEvaluator, Stage.withEvaluator]
  · have hstage : (initial cfg).stage = .trainSolver := by
      simp [initial, hrounds]
    constructor
    · intro _
      exact hempty
    all_goals simp [hstage, Stage.withEvaluator]

/-- The start of the evaluator: a launch if no round before had failures, and
nothing at all otherwise. -/
theorem startStudentEvaluator_evaluatorInv (h : EvaluatorInv cfg s)
    (hv : Vars cfg s) (hstage : s.stage = .startStudentEvaluator)
    (hs : startStudentEvaluator cfg s = some s') :
    EvaluatorInv cfg { s' with stage := .buildTeacherDataset } := by
  obtain ⟨hlive, hurl⟩ := h.before (by simp [hstage, Stage.beforeEvaluator])
  unfold startStudentEvaluator at hs
  split_ifs at hs with hset hdevice
  · -- the URL of an earlier evaluator is still set: nothing is launched
    cases hs
    constructor <;> simp_all [Stage.beforeEvaluator, Stage.withEvaluator]
  · cases hs
    have hnone : NoneBefore cfg s.round := hurl.mp (not_not.mp hset)
    have howned : Owned cfg { s with
        evaluatorUrl := (launched cfg s).url
        evaluatorPid := some s.nextPid
        nextPid := s.nextPid + 1
        live := s.live ++ [launched cfg s]
        stage := .buildTeacherDataset } := by
      refine ⟨launched cfg s, ?_, rfl, rfl, rfl, ?_, ?_⟩
      · simp [hlive]
      · exact hv.trained (by simp [hstage])
      · exact strategyArgs_eq hv
    have hne : (launched cfg s).url ≠ "" := by
      intro hempty
      have hlist := congrArg String.toList hempty
      simp [launched] at hlist
    constructor <;> simp_all [Stage.beforeEvaluator, Stage.withEvaluator]

/-- The stop of the evaluator leaves nothing alive, and the URL as it is. -/
theorem stopStudentEvaluator_evaluatorInv (h : EvaluatorInv cfg s)
    (hv : Vars cfg s) (hstage : s.stage = .stopStudentEvaluator) :
    EvaluatorInv cfg
      { stopStudentEvaluator s with stage := .buildRoundDataset } := by
  have hwith : s.stage.withEvaluator = true := by
    simp [hstage, Stage.withEvaluator]
  have hlive : (stopStudentEvaluator s).live = [] := by
    by_cases hnone : NoneBefore cfg s.round
    · obtain ⟨p, hlive, hpid, -⟩ := h.owned hwith hnone
      simp [stopStudentEvaluator, hpid, hlive]
    · have hlive := h.stale hwith hnone
      unfold stopStudentEvaluator
      split <;> simp [hlive]
  have hpos : 0 < cfg.failedCount s.round := hv.failing (by simp [Stage.inBranch, hwith])
  have hsome : ¬ NoneBefore cfg (s.round + 1) := by
    intro hnone
    have := ((noneBefore_succ hv.first).mp hnone).2
    omega
  constructor
  case after =>
    -- the URL is left as it is, and this round had failures
    intro _
    refine ⟨hlive, ?_⟩
    simp only [stopStudentEvaluator_evaluatorUrl, stopStudentEvaluator_round]
    exact iff_of_false (h.url hwith) hsome
  all_goals simp [Stage.beforeEvaluator, Stage.withEvaluator]

/-- A command before the evaluator, followed by another one. -/
theorem EvaluatorInv.move_before (h : EvaluatorInv cfg s)
    (hfrom : s.stage.beforeEvaluator = true)
    (hto : s'.stage.beforeEvaluator = true) (hround : s'.round = s.round)
    (hurl : s'.evaluatorUrl = s.evaluatorUrl) (hlive : s'.live = s.live) :
    EvaluatorInv cfg s' := by
  have hwith : s'.stage.withEvaluator = false := by
    revert hto
    cases s'.stage <;> simp [Stage.beforeEvaluator, Stage.withEvaluator]
  have hafter : s'.stage ≠ .buildRoundDataset := by
    intro hstage
    simp [hstage, Stage.beforeEvaluator] at hto
  constructor
  case before =>
    intro _
    rw [hround, hurl, hlive]
    exact h.before hfrom
  case after =>
    intro hstage
    exact absurd hstage hafter
  all_goals
    rw [hwith]
    simp

/-- A command with the evaluator, followed by another one. -/
theorem EvaluatorInv.move_with {st : Stage} (h : EvaluatorInv cfg s)
    (hfrom : s.stage.withEvaluator = true) (hto : st.withEvaluator = true) :
    EvaluatorInv cfg { s with stage := st } := by
  have hbefore : st.beforeEvaluator = false := by
    revert hto
    cases st <;> simp [Stage.beforeEvaluator, Stage.withEvaluator]
  have hafter : st ≠ .buildRoundDataset := by
    intro hstage
    simp [hstage, Stage.withEvaluator] at hto
  constructor
  case before =>
    rw [hbefore]
    simp
  case owned =>
    intro _ hnone
    exact h.owned hfrom hnone
  case stale =>
    intro _ hsome
    exact h.stale hfrom hsome
  case url =>
    intro _
    exact h.url hfrom
  case after =>
    intro hstage
    exact absurd hstage hafter

/-- Every command keeps what is said of the evaluator. -/
theorem EvaluatorInv.finish (h : EvaluatorInv cfg s) (hv : Vars cfg s)
    (hf : finish cfg s = some s') (hrun : s'.stage.running = true) :
    EvaluatorInv cfg s' := by
  cases success_of_finish hf with
  | trainSolver hstage | extractFailed hstage =>
      exact h.move_before (by rw [hstage]; rfl) rfl rfl rfl rfl
  | reflect hstage =>
      have hfrom : s.stage.beforeEvaluator = true := by rw [hstage]; rfl
      by_cases hpos : 0 < cfg.failedCount s.round
      · exact h.move_before hfrom (by simp [hpos, Stage.beforeEvaluator]) rfl
          rfl rfl
      · -- a round without failures goes on as the next one will
        have hzero : cfg.failedCount s.round = 0 := by omega
        have hempty := h.before hfrom
        have hsucc : NoneBefore cfg (s.round + 1) ↔
            NoneBefore cfg s.round ∧ cfg.failedCount s.round = 0 :=
          noneBefore_succ hv.first
        constructor <;>
          simp [hzero, Stage.beforeEvaluator, Stage.withEvaluator, hempty, hsucc]
  | startStudentEvaluator hstage hstart =>
      exact startStudentEvaluator_evaluatorInv h hv hstage hstart
  | buildTeacherDataset hstage | trainTeacher hstage | synthesize hstage =>
      exact h.move_with (by rw [hstage]; rfl) rfl
  | stopStudentEvaluator hstage =>
      exact stopStudentEvaluator_evaluatorInv h hv hstage
  | buildRoundDataset hstage =>
      have hempty := h.after hstage
      unfold nextRound at hrun ⊢
      split_ifs at hrun ⊢ with hnext
      · constructor <;> simp [Stage.beforeEvaluator, Stage.withEvaluator, hempty]
      · simp [Stage.running] at hrun

theorem reachable_evaluatorInv (hurl : cfg.studentEvalUrl = "")
    (h : (machine cfg).Reachable s) (hrun : s.stage.running = true) :
    EvaluatorInv cfg s := by
  revert hrun
  refine Machine.ReachableIf.invariant
    (I := fun s => s.stage.running = true → EvaluatorInv cfg s)
    (fun _ => initial_evaluatorInv hurl) ?_ h
  intro s e s' hreach ih _ hs hrun
  have hf := finish_of_running hs hrun
  have hfrom := running_of_finish hf
  exact (ih hfrom).finish (reachable_vars hreach hfrom) hf hrun

/-! ## The runs of the script -/

/-- Some run comes to command `st` of round `r`. -/
def Reaches (cfg : Config) (r : ℕ) (st : Stage) : Prop :=
  ∃ s, (machine cfg).Reachable s ∧ s.round = r ∧ s.stage = st

/-- A run is continued by the success of its command. -/
theorem Reaches.next {r r' : ℕ} {st st' : Stage} (h : Reaches cfg r st)
    (hdone : ∀ s, (machine cfg).Reachable s → s.round = r → s.stage = st →
      ∃ s', finish cfg s = some s' ∧ s'.round = r' ∧ s'.stage = st') :
    Reaches cfg r' st' := by
  obtain ⟨s, hs, hround, hstage⟩ := h
  obtain ⟨s', hf, hround', hstage'⟩ := hdone s hs hround hstage
  exact ⟨s', hs.step (e := .done) trivial hf, hround', hstage'⟩

variable {r : ℕ}

theorem Reaches.reflect (h : Reaches cfg r .trainSolver) :
    Reaches cfg r .reflect := by
  have htrained : Reaches cfg r .extractFailed := by
    apply h.next
    intro s _ hround hstage
    rw [finish, hstage]
    exact ⟨_, rfl, hround, rfl⟩
  apply htrained.next
  intro s _ hround hstage
  rw [finish, hstage]
  exact ⟨_, rfl, hround, rfl⟩

/-- A round with failures comes to the Teacher training. -/
theorem Reaches.trainTeacher (h : Reaches cfg r .reflect)
    (hcuda : cfg.studentEvalCudaVisibleDevices ≠ "")
    (hpos : 0 < cfg.failedCount r) : Reaches cfg r .trainTeacher := by
  have hstart : Reaches cfg r .startStudentEvaluator := by
    apply h.next
    intro s _ hround hstage
    rw [finish, hstage]
    refine ⟨_, rfl, hround, ?_⟩
    rw [hround]
    exact if_pos hpos
  have hstarted : Reaches cfg r .buildTeacherDataset := by
    apply hstart.next
    intro s _ hround hstage
    rw [finish, hstage]
    by_cases hset : s.evaluatorUrl = ""
    · simp [startStudentEvaluator, hset, hcuda, hround]
    · simp [startStudentEvaluator, hset, hround]
  apply hstarted.next
  intro s _ hround hstage
  rw [finish, hstage]
  exact ⟨_, rfl, hround, rfl⟩

/-- The first round with failures ends. -/
theorem Reaches.stopped (h : Reaches cfg r .trainTeacher)
    (hurl : cfg.studentEvalUrl = "") (hnone : NoneBefore cfg r) :
    Reaches cfg r .buildRoundDataset := by
  have hsynthesize : Reaches cfg r .synthesize := by
    apply h.next
    intro s _ hround hstage
    rw [finish, hstage]
    exact ⟨_, rfl, hround, rfl⟩
  have hstop : Reaches cfg r .stopStudentEvaluator := by
    apply hsynthesize.next
    intro s hs hround hstage
    have hinv := reachable_evaluatorInv hurl hs (by rw [hstage]; rfl)
    have howned : Owned cfg s :=
      hinv.owned (by rw [hstage]; rfl) (hround ▸ hnone)
    rw [finish, hstage]
    simp only [if_pos howned.served.reachable]
    exact ⟨_, rfl, hround, rfl⟩
  apply hstop.next
  intro s _ hround hstage
  rw [finish, hstage]
  refine ⟨_, rfl, ?_, rfl⟩
  simpa using hround

/-- A round before which no round has failures ends. -/
theorem Reaches.buildRoundDataset (h : Reaches cfg r .trainSolver)
    (hurl : cfg.studentEvalUrl = "")
    (hcuda : cfg.studentEvalCudaVisibleDevices ≠ "")
    (hquiet : cfg.failedCount r = 0 ∨ NoneBefore cfg r) :
    Reaches cfg r .buildRoundDataset := by
  by_cases hpos : 0 < cfg.failedCount r
  · have hnone : NoneBefore cfg r := hquiet.resolve_left (by omega)
    exact (h.reflect.trainTeacher hcuda hpos).stopped hurl hnone
  · apply h.reflect.next
    intro s _ hround hstage
    rw [finish, hstage]
    refine ⟨_, rfl, hround, ?_⟩
    rw [hround]
    exact if_neg hpos

theorem Reaches.trainSolver_succ (h : Reaches cfg r .buildRoundDataset)
    (hlt : r < cfg.rounds) : Reaches cfg (r + 1) .trainSolver := by
  apply h.next
  intro s _ hround hstage
  rw [finish, hstage]
  simp [nextRound, hround, hlt]

/-- The script comes to every round up to the second one with failures. -/
theorem reaches_trainSolver (hurl : cfg.studentEvalUrl = "")
    (hcuda : cfg.studentEvalCudaVisibleDevices ≠ "") :
    ∀ r, 1 ≤ r → r ≤ cfg.rounds →
      (∀ r', 1 ≤ r' → r' < r →
        cfg.failedCount r' = 0 ∨ NoneBefore cfg r') →
      Reaches cfg r .trainSolver := by
  intro r hr
  induction r, hr using Nat.le_induction with
  | base =>
      intro hrounds _
      refine ⟨initial cfg, .init, rfl, ?_⟩
      exact if_neg (by omega)
  | succ r hr ih =>
      intro hrounds hquiet
      have hthis : Reaches cfg r .trainSolver := by
        apply ih (by omega)
        intro r' hpos hlt
        exact hquiet r' hpos (by omega)
      have hend : Reaches cfg r .buildRoundDataset :=
        hthis.buildRoundDataset hurl hcuda (hquiet r hr (by omega))
      exact hend.trainSolver_succ (by omega)

/-! ## The evaluator serves -/

theorem NeedsEvaluator.withEvaluator (h : NeedsEvaluator s) :
    s.stage.withEvaluator = true := by
  rcases h with h | h <;> rw [h] <;> rfl

theorem NeedsEvaluator.inBranch (h : NeedsEvaluator s) :
    s.stage.inBranch = true := by
  rcases h with h | h <;> rw [h] <;> rfl

theorem NeedsEvaluator.running (h : NeedsEvaluator s) :
    s.stage.running = true := by
  rcases h with h | h <;> rw [h] <;> rfl

/-- When Teacher training or synthesis runs, the evaluator is there if and only
if no earlier round had failures. -/
theorem served_iff (hurl : cfg.studentEvalUrl = "")
    (h : (machine cfg).Reachable s) (hneeds : NeedsEvaluator s) :
    Served cfg s ↔ NoneBefore cfg s.round := by
  have hinv := reachable_evaluatorInv hurl h hneeds.running
  constructor
  · -- after an earlier round with failures nothing is alive
    intro hserved
    by_contra hsome
    obtain ⟨p, hp, -⟩ := hserved
    rw [hinv.stale hneeds.withEvaluator hsome] at hp
    exact absurd hp (List.not_mem_nil)
  · intro hnone
    exact (hinv.owned hneeds.withEvaluator hnone).served

/-- The rounds before a second round with failures: either quiet or the first
one to have failures. -/
theorem quiet_or_first {r₂ : ℕ}
    (hleast : ∀ r < r₂, ¬ (0 < cfg.failedCount r ∧ ¬ NoneBefore cfg r)) :
    ∀ r, 1 ≤ r → r < r₂ → cfg.failedCount r = 0 ∨ NoneBefore cfg r := by
  intro r _ hlt
  have := hleast r hlt
  by_cases hpos : 0 < cfg.failedCount r
  · exact .inr (by_contra fun hsome => this ⟨hpos, hsome⟩)
  · exact .inl (by omega)

/-- **When the evaluator serves.** For every number of rounds and all failed
counts, the evaluator of the round is alive at `EVALUATOR_URL` whenever Teacher
training or synthesis runs, in every run, if and only if at most one round has
failures. -/
theorem evaluator_serves_iff (cfg : Config) (hurl : cfg.studentEvalUrl = "")
    (hcuda : cfg.studentEvalCudaVisibleDevices ≠ "") :
    (∀ s, (machine cfg).Reachable s → NeedsEvaluator s → Served cfg s) ↔
      AtMostOneFailing cfg := by
  classical
  constructor
  · intro hserves r r' hr hlt hr' ⟨hpos, hpos'⟩
    -- the second round with failures is reached, with nobody to serve it
    have hex : ∃ r, 0 < cfg.failedCount r ∧ ¬ NoneBefore cfg r :=
      ⟨r', hpos', fun hnone => by have := hnone r hr hlt; omega⟩
    have hle : Nat.find hex ≤ r' := Nat.find_min' hex
      ⟨hpos', fun hnone => by have := hnone r hr hlt; omega⟩
    obtain ⟨hfailing, hsome⟩ := Nat.find_spec hex
    have hone : 1 ≤ Nat.find hex := by
      by_contra hzero
      exact hsome fun r' h1 h2 => absurd h2 (by omega)
    have hreach : Reaches cfg (Nat.find hex) .trainSolver :=
      reaches_trainSolver hurl hcuda _ hone (by omega)
        (quiet_or_first fun _ h => Nat.find_min hex h)
    obtain ⟨s, hs, hround, hstage⟩ := hreach.reflect.trainTeacher hcuda hfailing
    have hserved := hserves s hs (.inl hstage)
    exact hsome (hround ▸ (served_iff hurl hs (.inl hstage)).mp hserved)
  · intro hone s hs hneeds
    have hv := reachable_vars hs hneeds.running
    apply (served_iff hurl hs hneeds).mpr
    intro r hr hlt
    by_contra hne
    exact hone r s.round hr hlt hv.last
      ⟨Nat.pos_of_ne_zero hne, hv.failing hneeds.inBranch⟩

/-- Three rounds with the given failed counts. -/
def exampleConfig (failedCount : ℕ → ℕ) : Config where
  modelPath := "base"
  testFile := "test.parquet"
  workDir := "runs"
  rounds := 3
  studentEvalUrl := ""
  studentEvalCudaVisibleDevices := "1"
  studentEvalPort := "8877"
  failedCount := failedCount
  newSolverModel := fun r => "runs/round_" ++ toString r ++ "/solver"

theorem evaluator_serves_exampleConfig :
    let cfg := exampleConfig fun r => if r = 2 then 5 else 0
    cfg.studentEvalUrl = "" ∧ cfg.studentEvalCudaVisibleDevices ≠ "" ∧
      ∀ s, (machine cfg).Reachable s → NeedsEvaluator s → Served cfg s := by
  intro cfg
  refine ⟨rfl, by decide, ?_⟩
  apply (evaluator_serves_iff cfg rfl (by decide)).mpr
  rintro r r' hr hlt hr' ⟨hpos, hpos'⟩
  simp only [cfg, exampleConfig] at hpos hpos'
  split_ifs at hpos hpos' <;> omega

/-- Failures in the first and in the third round. The Teacher training of the
third round is given the URL of the evaluator of the first, which is dead. -/
theorem not_served_exampleConfig :
    let cfg := exampleConfig fun r => if r = 2 then 0 else 5
    cfg.studentEvalUrl = "" ∧ cfg.studentEvalCudaVisibleDevices ≠ "" ∧
      ¬ ∀ s, (machine cfg).Reachable s → NeedsEvaluator s → Served cfg s := by
  intro cfg
  refine ⟨rfl, by decide, ?_⟩
  intro hserves
  obtain ⟨s, hs, hp⟩ := Machine.exists_reachable_of_run (M := machine cfg)
    (p := fun s => decide (s.stage = .trainTeacher ∧ s.round = 3 ∧
      s.evaluatorUrl = "http://127.0.0.1:8877" ∧ s.live = []))
    (List.replicate 18 .done) (by decide +kernel)
  obtain ⟨hstage, -, -, hlive⟩ := of_decide_eq_true hp
  obtain ⟨p, hmem, -⟩ := hserves s hs (.inl hstage)
  rw [hlive] at hmem
  exact absurd hmem (List.not_mem_nil)

end TTSR.Loop
