import Mathlib.Logic.Function.Basic
import TTSR.Foundation.Machine
import TTSR.Evaluator.Handler

/-!
# The evaluator as a server

`ThreadingHTTPServer` gives every POST a thread of its own, and all threads
share one engine. The machine interleaves them at the grain of the engine: a
call of `generate` submits its prompts one by one, then takes engine steps. A
step returns whatever finishes in it, the prompts of other calls included, and
the call keeps all of it. The loop ends when the queue is empty.

Which prompts a step finishes and with which texts is the choice of the engine.
-/

namespace TTSR.Evaluator

open TTSR.Foundation TTSR.Reward

/-- A call of `generate`: the prompts submitted so far and the outputs its
engine steps have returned. -/
structure Call where
  questions : List String
  submitted : ℕ
  outputs : List RequestOutput
deriving DecidableEq

/-- What the thread of a client is doing. -/
inductive Phase where
  | idle
  | evaluating (questions : List String)
  | generating (call : Call)
  | replied (reply : Reply)
deriving DecidableEq

structure State where
  /-- The POST of each client, if it has come in. -/
  posted : ℕ → Option Request
  phase : ℕ → Phase
  nextId : ℕ
  unfinished : List EngineRequest
  /-- All prompts ever submitted; read by no step. -/
  submissions : List EngineRequest
  /-- All outputs ever returned by an engine step; read by no step. -/
  generated : List RequestOutput

inductive Event where
  | post (client : ℕ) (request : Request)
  | generate (client : ℕ)
  | submit (client : ℕ)
  | engineStep (client : ℕ) (finished : List RequestOutput)
  | collect (client : ℕ)

def initial : State where
  posted := fun _ => none
  phase := fun _ => .idle
  nextId := 0
  unfinished := []
  submissions := []
  generated := []

def State.setPhase (s : State) (t : ℕ) (p : Phase) : State :=
  { s with phase := Function.update s.phase t p }

/-- The engine takes a prompt into its queue. -/
def State.addRequest (s : State) (r : EngineRequest) : State :=
  { s with
    nextId := s.nextId + 1
    unfinished := s.unfinished ++ [r]
    submissions := s.submissions ++ [r] }

/-- An engine step finishes some of the queue. -/
def State.finish (s : State) (finished : List RequestOutput) : State :=
  { s with
    unfinished := s.unfinished.filter (· ∉ finished.map (·.request))
    generated := s.generated ++ finished }

/-- What `do_POST` goes on to do after its checks. -/
def afterChecks : Except Reply (List String) → Phase
  | .ok questions => .evaluating questions
  | .error reply => .replied reply

/-- The thread of a new connection runs `do_POST`. -/
def post (s : State) (t : ℕ) (request : Request) : Option State :=
  match s.posted t with
  | some _ => none
  | none => some ({ s with
      posted := Function.update s.posted t (some request) }.setPhase t
        (afterChecks (doPost request)))

/-- `evaluate` calls `generate`. -/
def generate (s : State) (t : ℕ) : Option State :=
  match s.phase t with
  | .evaluating questions => some (s.setPhase t (.generating ⟨questions, 0, []⟩))
  | _ => none

/-- `generate` submits its next prompt. -/
def submit (note : String) (s : State) (t : ℕ) : Option State :=
  match s.phase t with
  | .generating call => match call.questions[call.submitted]? with
      | some question =>
          some ((s.addRequest
            ⟨s.nextId, studentPrompt question note, t, call.submitted⟩).setPhase t
              (.generating { call with submitted := call.submitted + 1 }))
      | none => none
  | _ => none

/-- The outputs an engine step can return. -/
def Finishes (s : State) (finished : List RequestOutput) : Prop :=
  (finished.map (·.request)).Nodup ∧ ∀ o ∈ finished, o.request ∈ s.unfinished

instance (s : State) (finished : List RequestOutput) :
    Decidable (Finishes s finished) :=
  inferInstanceAs (Decidable (_ ∧ _))

/-- An engine step taken in the loop of `generate`, after the submissions. -/
def engineStep (s : State) (t : ℕ) (finished : List RequestOutput) :
    Option State :=
  match s.phase t with
  | .generating call =>
      -- the outputs are kept whoever submitted their prompts
      if call.submitted = call.questions.length ∧ Finishes s finished then
        some ((s.finish finished).setPhase t
          (.generating { call with outputs := call.outputs ++ finished }))
      else none
  | _ => none

/-- The loop of `generate` ends, and the thread replies. -/
def collect (s : State) (t : ℕ) : Option State :=
  match s.phase t with
  | .generating call =>
      -- `has_unfinished_requests` looks at the queue of all calls
      if call.submitted = call.questions.length ∧ s.unfinished = [] then
        some (s.setPhase t (.replied (respond call.questions call.outputs)))
      else none
  | _ => none

def step (note : String) (s : State) : Event → Option State
  | .post t request => post s t request
  | .generate t => generate s t
  | .submit t => submit note s t
  | .engineStep t finished => engineStep s t finished
  | .collect t => collect s t

/-- The server with the strategy note `note`. -/
def machine (note : String) : Machine State Event := ⟨initial, step note⟩

/-! ## What one step does -/

section Specs

variable {note : String} {s s' : State} {t : ℕ}

theorem post_spec {request : Request} (h : post s t request = some s') :
    s.posted t = none ∧
      s' = { s with posted := Function.update s.posted t (some request) }.setPhase
        t (afterChecks (doPost request)) := by
  unfold post at h
  cases hposted : s.posted t with
  | some _ =>
      rw [hposted] at h
      cases h
  | none =>
      rw [hposted] at h
      exact ⟨rfl, (Option.some.inj h).symm⟩

theorem generate_spec (h : generate s t = some s') :
    ∃ questions, s.phase t = .evaluating questions ∧
      s' = s.setPhase t (.generating ⟨questions, 0, []⟩) := by
  unfold generate at h
  split at h
  case h_1 questions hphase =>
    exact ⟨questions, hphase, (Option.some.inj h).symm⟩
  case h_2 => cases h

theorem submit_spec (h : submit note s t = some s') :
    ∃ call question, s.phase t = .generating call ∧
      call.questions[call.submitted]? = some question ∧
      s' = (s.addRequest ⟨s.nextId, studentPrompt question note, t,
        call.submitted⟩).setPhase t
          (.generating { call with submitted := call.submitted + 1 }) := by
  unfold submit at h
  split at h
  case h_2 => cases h
  case h_1 call hphase =>
    split at h
    case h_2 => cases h
    case h_1 question hquestion =>
      exact ⟨call, question, hphase, hquestion, (Option.some.inj h).symm⟩

theorem engineStep_spec {finished : List RequestOutput}
    (h : engineStep s t finished = some s') :
    ∃ call, s.phase t = .generating call ∧
      call.submitted = call.questions.length ∧ Finishes s finished ∧
      s' = (s.finish finished).setPhase t
        (.generating { call with outputs := call.outputs ++ finished }) := by
  unfold engineStep at h
  split at h
  case h_2 => cases h
  case h_1 call hphase =>
    split_ifs at h with hready
    exact ⟨call, hphase, hready.1, hready.2, (Option.some.inj h).symm⟩

theorem collect_spec (h : collect s t = some s') :
    ∃ call, s.phase t = .generating call ∧
      call.submitted = call.questions.length ∧ s.unfinished = [] ∧
      s' = s.setPhase t (.replied (respond call.questions call.outputs)) := by
  unfold collect at h
  split at h
  case h_2 => cases h
  case h_1 call hphase =>
    split_ifs at h with hready
    exact ⟨call, hphase, hready.1, hready.2, (Option.some.inj h).symm⟩

end Specs

/-! ## What a client is promised -/

/-- What was sampled for question `i` of client `t`: one output for each time
the engine finished it. -/
def rollouts (s : State) (t i : ℕ) : List RequestOutput :=
  s.generated.filter fun o => o.request.client = t ∧ o.request.index = i

/-- The results are the evaluations of the questions, each on the texts sampled
for it with its own prompt. -/
def FromOwn (note : String) (s : State) (t : ℕ) (questions : List String)
    (results : List Evaluation) : Prop :=
  results.length = questions.length ∧
    ∀ i q e, questions[i]? = some q → results[i]? = some e →
      ∃ o, rollouts s t i = [o] ∧ o.request.prompt = studentPrompt q note ∧
        e = evaluateOutput q o.texts

/-- A 200 reply answers the questions of its own request, from their own
rollouts, and a request with questions is not refused. -/
structure Answered (note : String) (s : State) (t : ℕ) (request : Request)
    (reply : Reply) : Prop where
  own : ∀ results, reply = .ok results →
    ∃ questions, doPost request = .ok questions ∧
      FromOwn note s t questions results
  accepted : ∀ questions, doPost request = .ok questions → reply.status = 200

end TTSR.Evaluator
