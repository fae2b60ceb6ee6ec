import Mathlib.Data.List.Sort
import TTSR.Prompts
import TTSR.Reward.MajorityVote

/-!
# The handler of the Student evaluator

`Handler.do_POST` and `StudentEvaluator.evaluate`, cut where `evaluate` calls
`self.llm.generate`: what comes before the call is `doPost`, what comes after it
is `respond`.
-/

namespace TTSR.Evaluator

open TTSR.Foundation TTSR.Foundation.Text TTSR.Reward

/-- A POST. The body is the decoded JSON, or the text of the exception that
reading or decoding it raised. -/
structure Request where
  path : String
  body : Except String Json

/-- What `_write_json` sends: `HTTPStatus.OK` with the results, or an error. -/
inductive Reply where
  | ok (results : List Evaluation)
  | badRequest (error : String)
  | notFound (error : String)
deriving DecidableEq

def Reply.status : Reply → ℕ
  | ok _ => 200
  | badRequest _ => 400
  | notFound _ => 404

/-! ## Before `generate` -/

/-- `isinstance(q, str) and q.strip()`. -/
def asQuestion : Json → Option String
  | .str q => if strip q = "" then none else some q
  | _ => none

/-- The questions of a payload, or the text of the exception. -/
def questionsOf (payload : Json) : Except String (List String) :=
  match payload.get "questions" (.arr []) with
  | .error _ => .error ("'" ++ payload.typeName ++
      "' object has no attribute 'get'")
  | .ok (.arr questions) => match questions.mapM asQuestion with
      | some (q :: qs) => .ok (q :: qs)
      | _ => .error "questions must be a non-empty list of strings"
  | .ok _ => .error "questions must be a non-empty list of strings"

/-- `do_POST` up to the call of `evaluate`: the questions, or the reply. -/
def doPost (request : Request) : Except Reply (List String) :=
  if request.path ≠ "/evaluate" then .error (.notFound "not found")
  else match request.body with
    | .error exc => .error (.badRequest exc)
    | .ok payload => match questionsOf payload with
        | .error exc => .error (.badRequest exc)
        | .ok questions => .ok questions

/-- What `do_POST` replies without calling `evaluate` is an error. -/
theorem status_of_doPost_error {request : Request} {reply : Reply}
    (h : doPost request = .error reply) : reply.status ≠ 200 := by
  unfold doPost at h
  split_ifs at h
  · cases h
    simp [Reply.status]
  · split at h
    · cases h
      simp [Reply.status]
    · split at h
      · cases h
        simp [Reply.status]
      · cases h

/-! ## The engine -/

/-- A prompt in the queue of the engine. The last two fields say whose it is;
the engine does not look at them. -/
structure EngineRequest where
  requestId : ℕ
  prompt : String
  client : ℕ
  index : ℕ
deriving DecidableEq

/-- A finished prompt with the texts sampled for it. -/
structure RequestOutput where
  request : EngineRequest
  texts : List String
deriving DecidableEq

/-! ## After `generate` -/

/-- The loop of `evaluate`, over `zip(questions, outputs, strict=True)`. -/
def evaluateOutputs :
    List String → List RequestOutput → Except String (List Evaluation)
  | [], [] => .ok []
  | question :: questions, output :: outputs => do
      let results ← evaluateOutputs questions outputs
      return evaluateOutput question output.texts :: results
  | [], _ :: _ => .error "zip() argument 2 is longer than argument 1"
  | _ :: _, [] => .error "zip() argument 2 is shorter than argument 1"

/-- `sorted(outputs, key=lambda x: int(x.request_id))`. -/
def sortById (outputs : List RequestOutput) : List RequestOutput :=
  outputs.insertionSort fun o o' => o.request.requestId ≤ o'.request.requestId

/-- The reply to questions whose `generate` collected `outputs`. -/
def respond (questions : List String) (outputs : List RequestOutput) : Reply :=
  match evaluateOutputs questions (sortById outputs) with
  | .ok results => .ok results
  | .error exc => .badRequest exc

theorem evaluateOutputs_of_length_eq {questions : List String}
    {outputs : List RequestOutput}
    (h : questions.length = outputs.length) :
    evaluateOutputs questions outputs =
      .ok (List.zipWith (fun q o => evaluateOutput q o.texts)
        questions outputs) := by
  induction questions generalizing outputs with
  | nil =>
      cases outputs with
      | nil => rfl
      | cons o os => cases h
  | cons q qs ih =>
      cases outputs with
      | nil => cases h
      | cons o os =>
          have htail := ih (Nat.succ.inj h)
          rw [evaluateOutputs, htail]
          rfl

end TTSR.Evaluator
