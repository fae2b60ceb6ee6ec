import TTSR.Loop.EvaluatorLifecycle
import TTSR.Pipeline.RoundDataset

/-!
# The prompt the Student is trained on

The round loop together with the data files it hands from round to round: the
training sets and the strategy notes. The Student of a round is trained on a
file that an earlier program has rendered, and the evaluator renders the same
questions by itself.

From the second round on both use `student_prompt` with the same note. In the
first round the file is `TEST_FILE`, which `prepare_dataset` has rendered in a
layout of its own, and no prompt agrees (`trained_prompt_iff`).
-/

namespace TTSR.Loop

open TTSR.Foundation TTSR.Pipeline

/-! ## The loop with its data -/

/-- The environment of the script, and what its programs write in a run. -/
structure DataConfig where
  shell : Config
  py : Builtins
  /-- `random.Random(seed).shuffle`. -/
  shuffle : List VerlRow → List VerlRow
  shuffle_perm : ∀ rows, (shuffle rows).Perm rows
  /-- `TEST_FILE`, written by `prepare_dataset`. -/
  testSet : List VerlRow
  prepared : ∀ row ∈ testSet, Prepared row
  /-- `variants.jsonl` of each round. -/
  variants : ℕ → List (List (String × Json))
  /-- `strategy_note.txt` of each round. -/
  noteText : ℕ → String

/-- The script, the files it has written so far and the rows of the last
Student training. -/
structure DataState where
  shell : State
  datasets : Dict String (List VerlRow)
  notes : Dict String String
  trained : List VerlRow

def roundTrainPath (cfg : Config) (r : ℕ) : String :=
  roundDir cfg r ++ "/round_train.parquet"

variable (dc : DataConfig)

def dataInitial : DataState where
  shell := initial dc.shell
  datasets := Dict.empty.set dc.shell.testFile dc.testSet
  notes := Dict.empty
  trained := []

/-- `strategy_note.txt` of the running round, empty if there is none. -/
def roundNote (d : DataState) : String :=
  d.notes.getD (strategyNotePath dc.shell d.shell.round) ""

/-- What the running command reads and writes, if it succeeds. -/
def dataFinish (d : DataState) : Option DataState :=
  match d.shell.stage with
  | .trainSolver =>
      (d.datasets.get? d.shell.roundTrain).map fun rows =>
        { d with trained := rows }
  | .reflect =>
      let path := strategyNotePath dc.shell d.shell.round
      some { d with notes := d.notes.set path (dc.noteText d.shell.round) }
  | .buildRoundDataset =>
      (d.datasets.get? dc.shell.testFile).map fun baseRows =>
        let rows := buildRoundDataset dc.py dc.shuffle (baseRows.map (·.read))
          (dc.variants d.shell.round) (roundNote dc d)
        let out := roundTrainPath dc.shell d.shell.round
        { d with datasets := d.datasets.set out rows }
  | _ => some d

def dataStep (d : DataState) (e : Event) : Option DataState :=
  match e with
  | .done => (dataFinish dc d).bind fun d' =>
      (finish dc.shell d.shell).map fun s => { d' with shell := s }
  | .fail => (step dc.shell d.shell .fail).map fun s => { d with shell := s }

def dataMachine : Machine DataState Event := ⟨dataInitial dc, dataStep dc⟩

/-- The note the evaluator is given: what it reads at its `--strategy_note`,
and nothing without that argument. -/
def evaluatorNote (d : DataState) : String :=
  match strategyArgs d.shell with
  | some path => d.notes.getD path ""
  | none => ""

/-- The row is trained on under the prompt that `StudentEvaluator.evaluate`
builds for its question. -/
def SeenAsTrained (d : DataState) (row : VerlRow) (question : String) : Prop :=
  row.prompt = [⟨"user", studentPrompt question (evaluatorNote d)⟩]

/-! ## The script runs as before -/

variable {dc} {d d' : DataState} {e : Event}

/-- A step of the loop with its data is a step of the script. -/
theorem step_of_dataStep (h : dataStep dc d e = some d') :
    step dc.shell d.shell e = some d'.shell := by
  cases e with
  | done =>
      obtain ⟨t, -, ht⟩ := Option.bind_eq_some_iff.mp h
      obtain ⟨s, hs, rfl⟩ := Option.map_eq_some_iff.mp ht
      exact hs
  | fail =>
      obtain ⟨s, hs, rfl⟩ := Option.map_eq_some_iff.mp h
      exact hs

theorem reachable_shell (h : (dataMachine dc).Reachable d) :
    (machine dc.shell).Reachable d.shell := by
  refine Machine.Reachable.simulate (N := machine dc.shell)
    DataState.shell rfl ?_ h
  intro d e d' hstep
  exact .inr ⟨e, step_of_dataStep hstep⟩

/-- A step into a running script is the success of a command: it has had its
effect on the files, and the script moves on. -/
theorem dataFinish_of_dataStep (h : dataStep dc d e = some d')
    (hrun : d'.shell.stage.running = true) :
    ∃ t, dataFinish dc d = some t ∧
      finish dc.shell d.shell = some d'.shell ∧
      d' = { t with shell := d'.shell } := by
  cases e with
  | done =>
      obtain ⟨t, hfiles, ht⟩ := Option.bind_eq_some_iff.mp h
      obtain ⟨s, hs, rfl⟩ := Option.map_eq_some_iff.mp ht
      exact ⟨t, hfiles, hs, rfl⟩
  | fail =>
      obtain ⟨s, hs, rfl⟩ := Option.map_eq_some_iff.mp h
      obtain ⟨-, -, rfl⟩ := step_fail_cases hs
      cases hrun

/-! ## What the rows of a round are -/

/-- What round `r` trains on: the prepared rows in the first round, and from
then on rows rendered with the note of the round before. -/
def TrainedAs (dc : DataConfig) (r : ℕ) (row : VerlRow) : Prop :=
  if r ≤ 1 then Prepared row else RenderedWith (dc.noteText (r - 1)) row

/-- What the files hold while a round runs. -/
structure DataInv (dc : DataConfig) (d : DataState) : Prop where
  source : d.shell.stage = .trainSolver → ∀ rows,
    d.datasets.get? d.shell.roundTrain = some rows →
      ∀ row ∈ rows, TrainedAs dc d.shell.round row
  trained : d.shell.stage ≠ .trainSolver →
    ∀ row ∈ d.trained, TrainedAs dc d.shell.round row
  prevNote : 1 < d.shell.round →
    d.notes.get? (strategyNotePath dc.shell (d.shell.round - 1)) =
      some (dc.noteText (d.shell.round - 1))
  noteNow : d.shell.stage.afterReflect = true →
    d.notes.get? (strategyNotePath dc.shell d.shell.round) =
      some (dc.noteText d.shell.round)

theorem dataInitial_inv (hrun : (dataInitial dc).shell.stage.running = true) :
    DataInv dc (dataInitial dc) := by
  have hstage : (dataInitial dc).shell.stage = .trainSolver := by
    simp only [dataInitial, initial] at hrun ⊢
    split_ifs at hrun ⊢
    · cases hrun
    · rfl
  constructor
  case source =>
    intro _ rows hrows row hrow
    have heq : dc.testSet = rows :=
      Option.some.inj ((Dict.get?_set_self _ _ _).symm.trans hrows)
    exact dc.prepared row (heq ▸ hrow)
  case trained =>
    intro hne
    exact absurd hstage hne
  case prevNote =>
    intro hround
    exact absurd hround (Nat.lt_irrefl 1)
  case noteNow =>
    intro hlate
    rw [hstage] at hlate
    cases hlate

variable {s' : State} {st st' : Stage}

/-- A command that writes none of these files, followed by another one. -/
theorem DataInv.move (h : DataInv dc d) (hstage : d.shell.stage = st)
    (hfollows : st.Follows st') (hround : s'.round = d.shell.round) :
    DataInv dc { d with shell := { s' with stage := st' } } := by
  subst hstage
  obtain ⟨hfrom, hto, hlate, -⟩ := hfollows
  constructor
  case source =>
    intro hsolver
    exact absurd hsolver hto
  case trained =>
    intro _
    show ∀ row ∈ d.trained, TrainedAs dc s'.round row
    rw [hround]
    exact h.trained hfrom
  case prevNote =>
    show 1 < s'.round → _
    rw [hround]
    exact h.prevNote
  case noteNow =>
    intro hstage
    show d.notes.get? (strategyNotePath dc.shell s'.round) = _
    rw [hround]
    exact h.noteNow (hlate hstage)

/-- The Student training reads the rows of its round. -/
theorem DataInv.trainSolver {rows : List VerlRow} (h : DataInv dc d)
    (hstage : d.shell.stage = .trainSolver)
    (hrows : d.datasets.get? d.shell.roundTrain = some rows)
    (hround : s'.round = d.shell.round) (hto : s'.stage = .extractFailed) :
    DataInv dc { d with trained := rows, shell := s' } := by
  constructor
  case source =>
    intro hsolver
    rw [show s'.stage = .trainSolver from hsolver] at hto
    cases hto
  case trained =>
    intro _
    show ∀ row ∈ rows, TrainedAs dc s'.round row
    rw [hround]
    exact h.source hstage rows hrows
  case prevNote =>
    show 1 < s'.round → _
    rw [hround]
    exact h.prevNote
  case noteNow =>
    intro hlate
    rw [show s'.stage = .extractFailed from hto] at hlate
    cases hlate

/-- Reflection writes the note of its round and leaves the one before. -/
theorem DataInv.reflect (h : DataInv dc d) (hstage : d.shell.stage = .reflect)
    (hround : s'.round = d.shell.round) (hto : s'.stage ≠ .trainSolver) :
    let path := strategyNotePath dc.shell d.shell.round
    DataInv dc { d with
      notes := d.notes.set path (dc.noteText d.shell.round)
      shell := s' } := by
  intro path
  constructor
  case source =>
    intro hsolver
    exact absurd hsolver hto
  case trained =>
    intro _
    show ∀ row ∈ d.trained, TrainedAs dc s'.round row
    rw [hround]
    exact h.trained (by simp [hstage])
  case prevNote =>
    show 1 < s'.round → _
    rw [hround]
    intro hlt
    have hne : strategyNotePath dc.shell (d.shell.round - 1) ≠ path := by
      intro heq
      have := strategyNotePath_inj.mp heq
      omega
    rw [Dict.get?_set_ne d.notes _ hne]
    exact h.prevNote hlt
  case noteNow =>
    intro _
    show (d.notes.set path _).get? (strategyNotePath dc.shell s'.round) = _
    rw [hround]
    exact Dict.get?_set_self _ _ _

/-- The next training set is rendered with the note of this round. -/
theorem DataInv.nextRound {baseRows : List VerlRow} (h : DataInv dc d)
    (hv : Vars dc.shell d.shell) (hstage : d.shell.stage = .buildRoundDataset)
    (hlt : d.shell.round < dc.shell.rounds) :
    let rows := buildRoundDataset dc.py dc.shuffle (baseRows.map (·.read))
      (dc.variants d.shell.round) (roundNote dc d)
    let out := roundTrainPath dc.shell d.shell.round
    DataInv dc { d with
      datasets := d.datasets.set out rows
      shell := nextRound dc.shell d.shell } := by
  intro rows out
  have hnow := h.noteNow (by rw [hstage]; rfl)
  have hnote : roundNote dc d = dc.noteText d.shell.round := by
    rw [roundNote, Dict.getD, hnow]
    rfl
  have hfirst := hv.first
  rw [Loop.nextRound, if_pos hlt]
  constructor
  case source =>
    intro _ rows' hrows row hrow
    show TrainedAs dc (d.shell.round + 1) row
    have heq : rows = rows' :=
      Option.some.inj ((Dict.get?_set_self _ _ _).symm.trans hrows)
    rw [TrainedAs, if_neg (by omega), Nat.add_sub_cancel, ← hnote]
    rw [← heq] at hrow
    exact renderedWith_of_mem dc.shuffle_perm hrow
  case trained =>
    intro hne
    exact absurd rfl hne
  case prevNote =>
    intro _
    exact hnow
  case noteNow =>
    intro hlate
    cases hlate

/-- Every command keeps what is said of the files. -/
theorem DataInv.step (h : DataInv dc d) (hv : Vars dc.shell d.shell)
    (hstep : dataStep dc d e = some d')
    (hrun : d'.shell.stage.running = true) : DataInv dc d' := by
  obtain ⟨t, hfiles, hfinish, hd'⟩ := dataFinish_of_dataStep hstep hrun
  rw [hd']
  generalize d'.shell = s' at hfinish hrun
  unfold dataFinish at hfiles
  cases success_of_finish hfinish with
  | trainSolver hstage =>
      rw [hstage] at hfiles
      obtain ⟨rows, hrows, rfl⟩ := Option.map_eq_some_iff.mp hfiles
      exact h.trainSolver hstage hrows rfl rfl
  | reflect hstage =>
      rw [hstage] at hfiles
      cases hfiles
      refine h.reflect hstage rfl ?_
      show (if _ then _ else _) ≠ _
      split_ifs <;> decide
  | buildRoundDataset hstage =>
      rw [hstage] at hfiles
      obtain ⟨baseRows, -, rfl⟩ := Option.map_eq_some_iff.mp hfiles
      by_cases hlt : d.shell.round < dc.shell.rounds
      · exact h.nextRound hv hstage hlt
      · rw [Loop.nextRound, if_neg hlt, stopStudentEvaluator_stage] at hrun
        cases hrun
  | startStudentEvaluator hstage hstart =>
      rw [hstage] at hfiles
      cases hfiles
      exact h.move hstage (by decide) (startStudentEvaluator_vars hstart).1
  | stopStudentEvaluator hstage =>
      rw [hstage] at hfiles
      cases hfiles
      exact h.move hstage (by decide) stopStudentEvaluator_round
  | extractFailed hstage | buildTeacherDataset hstage | trainTeacher hstage
  | synthesize hstage =>
      rw [hstage] at hfiles
      cases hfiles
      exact h.move hstage (by decide) rfl

theorem reachable_inv (h : (dataMachine dc).Reachable d)
    (hrun : d.shell.stage.running = true) : DataInv dc d := by
  revert hrun
  refine Machine.ReachableIf.invariant
    (I := fun d => d.shell.stage.running = true → DataInv dc d)
    dataInitial_inv ?_ h
  intro d e d' hd ih _ hs hrun
  obtain ⟨-, -, hfinish, -⟩ := dataFinish_of_dataStep hs hrun
  have hfrom := running_of_finish hfinish
  exact (ih hfrom).step (reachable_vars (reachable_shell hd) hfrom) hs hrun

/-! ## Both sides of the comparison -/

/-- The evaluator of a round reads the note of the round before. -/
theorem evaluatorNote_eq (h : DataInv dc d) (hv : Vars dc.shell d.shell) :
    evaluatorNote d = if d.shell.round ≤ 1 then ""
      else dc.noteText (d.shell.round - 1) := by
  rw [evaluatorNote, strategyArgs_eq hv, strategyOf]
  split_ifs with hround
  · rfl
  · show d.notes.getD _ "" = _
    rw [Dict.getD, h.prevNote (by omega)]
    rfl

/-- A row of the first round is prepared, and the evaluator has no note. -/
theorem not_seenAsTrained_of_first (h : DataInv dc d)
    (hv : Vars dc.shell d.shell) (hround : d.shell.round ≤ 1)
    (hne : d.shell.stage ≠ .trainSolver) {row : VerlRow}
    (hrow : row ∈ d.trained) {question : String}
    (hq : row.rawQuestion = some question) :
    ¬ SeenAsTrained d row question := by
  intro hseen
  have hprepared := h.trained hne row hrow
  rw [TrainedAs, if_pos hround] at hprepared
  rw [SeenAsTrained, evaluatorNote_eq h hv, if_pos hround] at hseen
  exact not_renderedWith_of_prepared hprepared ⟨question, hq, hseen⟩

/-- A row of a later round is rendered with the note the evaluator reads. -/
theorem seenAsTrained_of_later (h : DataInv dc d)
    (hv : Vars dc.shell d.shell) (hround : ¬ d.shell.round ≤ 1)
    (hne : d.shell.stage ≠ .trainSolver) {row : VerlRow}
    (hrow : row ∈ d.trained) {question : String}
    (hq : row.rawQuestion = some question) :
    SeenAsTrained d row question := by
  have hrendered := h.trained hne row hrow
  rw [TrainedAs, if_neg hround] at hrendered
  obtain ⟨question', hq', hprompt⟩ := hrendered
  obtain rfl : question' = question := Option.some.inj (hq'.symm.trans hq)
  rw [SeenAsTrained, evaluatorNote_eq h hv, if_neg hround]
  exact hprompt

/-- **The evaluator sees what the Student was trained on**, for every question
of every round, from the second round on; in the first round for none. -/
theorem trained_prompt_iff (dc : DataConfig) {d : DataState}
    (h : (dataMachine dc).Reachable d)
    (hrun : d.shell.stage.running = true)
    (hne : d.shell.stage ≠ .trainSolver) :
    ∀ row ∈ d.trained, ∀ question, row.rawQuestion = some question →
      (SeenAsTrained d row question ↔ 2 ≤ d.shell.round) := by
  intro row hrow question hq
  have hinv := reachable_inv h hrun
  have hv := reachable_vars (reachable_shell h) hrun
  by_cases hround : d.shell.round ≤ 1
  · exact iff_of_false
      (not_seenAsTrained_of_first hinv hv hround hne hrow hq) (by omega)
  · exact iff_of_true
      (seenAsTrained_of_later hinv hv hround hne hrow hq) (by omega)

/-- One test question, failures in one of three rounds, and a note after
each. -/
def exampleData (failing : ℕ) : DataConfig where
  shell := exampleConfig fun r => if r = failing then 5 else 0
  py := Builtins.plain
  shuffle := id
  shuffle_perm := List.Perm.refl
  testSet := [toVerlRow "Is 91 prime?" "no" "math" "test" 0 "Think."]
  prepared := by
    intro row hrow
    obtain rfl := List.mem_singleton.mp hrow
    exact ⟨_, _, _, _, _, _, rfl⟩
  variants := fun _ => [[("question", .str "Is 93 prime?")]]
  noteText := fun _ => "Check small factors."

theorem trained_prompt_exampleData :
    ∃ d, (dataMachine (exampleData 2)).Reachable d ∧ d.shell.round = 2 ∧
      d.shell.stage = .startStudentEvaluator ∧ d.trained.length = 2 ∧
      ∀ row ∈ d.trained, ∀ question, row.rawQuestion = some question →
        SeenAsTrained d row question := by
  obtain ⟨d, hd, hp⟩ := Machine.exists_reachable_of_run
    (M := dataMachine (exampleData 2))
    (p := fun d => decide (d.shell.round = 2 ∧
      d.shell.stage = .startStudentEvaluator ∧ d.trained.length = 2))
    (List.replicate 7 .done) (by decide +kernel)
  obtain ⟨hround, hstage, hlength⟩ := of_decide_eq_true hp
  refine ⟨d, hd, hround, hstage, hlength, ?_⟩
  intro row hrow question hq
  have hiff := trained_prompt_iff (exampleData 2) hd (by rw [hstage]; rfl)
    (by rw [hstage]; decide) row hrow question hq
  exact hiff.mpr (Nat.le_of_eq hround.symm)

/-- In the first round the Student has been trained on a prompt that the
evaluator does not ask. -/
theorem trained_prompt_differs :
    ∃ d, (dataMachine (exampleData 1)).Reachable d ∧
      d.shell.stage = .startStudentEvaluator ∧
      ∃ row ∈ d.trained, row.rawQuestion = some "Is 91 prime?" ∧
        ¬ SeenAsTrained d row "Is 91 prime?" := by
  obtain ⟨d, hd, hp⟩ := Machine.exists_reachable_of_run
    (M := dataMachine (exampleData 1))
    (p := fun d => decide (d.shell.round = 1 ∧
      d.shell.stage = .startStudentEvaluator ∧
      ∃ row ∈ d.trained, row.rawQuestion = some "Is 91 prime?"))
    (List.replicate 3 .done) (by decide +kernel)
  obtain ⟨hround, hstage, row, hrow, hq⟩ := of_decide_eq_true hp
  have hrun : d.shell.stage.running = true := by rw [hstage]; rfl
  have hne : d.shell.stage ≠ .trainSolver := by rw [hstage]; decide
  have hv := reachable_vars (reachable_shell hd) hrun
  exact ⟨d, hd, hstage, row, hrow, hq, not_seenAsTrained_of_first
    (reachable_inv hd hrun) hv (Nat.le_of_eq hround) hne hrow hq⟩

end TTSR.Loop
