import TTSR.Foundation.Batching
import TTSR.Reward.TeacherReward

/-!
# `TTSRStudentFrontierTeacherRewardManager` as a machine

The same queue as the majority manager, with one more await: after a callback
has popped a group, the group is in flight until the exchange with the evaluator
is over. Meanwhile new rollouts of its uid start a new group.

- `runSingle`: `run_single` up to its `wait_for`. A response on which the
  question cannot be extracted without an exception is not registered.
- `callback`: a scheduled lambda and its `_finalize_group` task, up to the pop.
- `evaluated`: the rest of that task. A group without a valid question makes no
  request, and its reply is not read.
- `timeout`, `resume`, `clock`: as for the majority manager.
-/

namespace TTSR.Reward.Teacher

open TTSR.Foundation TTSR.Foundation.Batching TTSR.Foundation.Futures
open TTSR.Foundation.Text

/-- What the manager is given: its options and the parts of the language and
its library that are left open. -/
structure Env where
  cfg : TeacherConfig
  py : Builtins
  loads : String → Except LoadsError Json
  ratio : List String → List String → ℚ
  hash : String → ℤ

def policy (cfg : TeacherConfig) : Policy ℚ where
  size := cfg.expectedGroupSize
  delay := max (1 / 1000) (cfg.groupWaitMs / 1000)
  size_pos := cfg.expectedGroupSize_pos

structure State where
  /-- `_items`, `_timer_set` and what the loop has scheduled. -/
  queue : Batching.State String TeacherItem ℚ
  /-- The groups whose evaluation is awaited. -/
  inflight : List (Batch String TeacherItem)
  nextFuture : ℕ
  futures : Log RewardResult
  /-- What the calls of `run_single` have returned, by future. -/
  returned : List (ℕ × RewardResult)

inductive Event where
  | runSingle (uid responseText reference : String)
  | callback (c : Callback String ℚ)
  | evaluated (b : Batch String TeacherItem) (reply : Reply)
  | clock (t : ℚ)
  | timeout (f : ℕ)
  | resume (f : ℕ)

def initial (t₀ : ℚ) : State := ⟨Batching.initial t₀, [], 0, [], []⟩

/-- The key of a rollout. -/
def groupUid (hash : String → ℤ) (uid reference : String) : String :=
  if uid = "" then "fallback::" ++ toString (hash reference) else uid

variable (env : Env)

def runSingle (uid responseText reference : String) (s : State) : State :=
  match extractGeneratedQuestion env.py env.loads responseText with
  | .error _ => s
  | .ok (question, formatOk) =>
      { s with
        queue := s.queue.arrive (policy env.cfg)
          (groupUid env.hash uid (strip reference))
          ⟨question, strip reference, formatOk, s.nextFuture⟩
        nextFuture := s.nextFuture + 1 }

/-- `_finalize_group` up to its await. -/
def pop (c : Callback String ℚ) (s : State) : State :=
  { s with
    queue := s.queue.fire c
    inflight :=
      if s.queue.items c.key = [] then s.inflight
      else s.inflight ++ [⟨c.key, s.queue.items c.key⟩] }

/-- `_finalize_group` after its await. -/
def answer (b : Batch String TeacherItem) (reply : Reply) (s : State) : State :=
  { s with
    inflight := s.inflight.erase b
    futures := setResults s.futures
      (finalizeTeacherGroup env.py env.ratio env.cfg b.key b.items reply).1 }

def hasReturned (s : State) (f : ℕ) : Bool :=
  (s.returned.map Prod.fst).contains f

/-- The dictionary of a rollout whose result did not arrive in time. -/
def timeoutResult (uid : String) (item : TeacherItem) : RewardResult :=
  zero uid item item.formatOk "reward timeout"

def step (s : State) : Event → Option State
  | .runSingle uid text reference => some (runSingle env uid text reference s)
  | .callback c =>
      if c ∈ s.queue.pending ∧ c.due ≤ s.queue.now then some (pop c s)
      else none
  | .evaluated b reply =>
      if b ∈ s.inflight then some (answer env b reply s) else none
  | .clock t =>
      if s.queue.now ≤ t then some { s with queue := { s.queue with now := t } }
      else none
  | .timeout f =>
      match s.queue.arrivals.find? (·.item.future = f) with
      | some a =>
          if a.time + env.cfg.resultTimeoutS ≤ s.queue.now ∧ !hasReturned s f
          then some { s with
            futures := cancel s.futures f
            returned := s.returned ++ [(f, timeoutResult a.key a.item)] }
          else none
      | none => none
  | .resume f =>
      match Dict.lookupEntries f s.futures with
      | some (.result r) =>
          if hasReturned s f then none
          else some { s with returned := s.returned ++ [(f, r)] }
      | _ => none

def machine (t₀ : ℚ) : Machine State Event := ⟨initial t₀, step env⟩

variable {env}

/-! ## What one step does -/

/-- Everything a step can do, guards included. -/
theorem step_cases {s s' : State} {e : Event} (h : step env s e = some s') :
    (∃ uid text reference, e = .runSingle uid text reference ∧
      s' = runSingle env uid text reference s) ∨
    (∃ c, e = .callback c ∧ c ∈ s.queue.pending ∧ c.due ≤ s.queue.now ∧
      s' = pop c s) ∨
    (∃ b reply, e = .evaluated b reply ∧ b ∈ s.inflight ∧
      s' = answer env b reply s) ∨
    (∃ t, e = .clock t ∧ s.queue.now ≤ t ∧
      s' = { s with queue := { s.queue with now := t } }) ∨
    (∃ a ∈ s.queue.arrivals, e = .timeout a.item.future ∧
      a.time + env.cfg.resultTimeoutS ≤ s.queue.now ∧
      hasReturned s a.item.future = false ∧
      s' = { s with
        futures := cancel s.futures a.item.future
        returned := s.returned ++
          [(a.item.future, timeoutResult a.key a.item)] }) ∨
    (∃ f r, e = .resume f ∧ (f, .result r) ∈ s.futures ∧
      hasReturned s f = false ∧
      s' = { s with returned := s.returned ++ [(f, r)] }) := by
  cases e with
  | runSingle uid text reference =>
      exact Or.inl ⟨uid, text, reference, rfl, (Option.some.inj h).symm⟩
  | callback c =>
      rw [step] at h
      split_ifs at h with hc
      exact Or.inr (Or.inl ⟨c, rfl, hc.1, hc.2, (Option.some.inj h).symm⟩)
  | evaluated b reply =>
      rw [step] at h
      split_ifs at h with hb
      exact Or.inr (Or.inr (Or.inl
        ⟨b, reply, rfl, hb, (Option.some.inj h).symm⟩))
  | clock t =>
      rw [step] at h
      split_ifs at h with ht
      exact Or.inr (Or.inr (Or.inr (Or.inl
        ⟨t, rfl, ht, (Option.some.inj h).symm⟩)))
  | timeout f =>
      rw [step] at h
      cases hfind : s.queue.arrivals.find? (·.item.future = f) with
      | none => rw [hfind] at h; cases h
      | some a =>
          simp only [hfind] at h
          split_ifs at h with hdue
          have hmem := List.mem_of_find?_eq_some hfind
          have hf : a.item.future = f := by simpa using List.find?_some hfind
          subst hf
          exact Or.inr (Or.inr (Or.inr (Or.inr (Or.inl ⟨a, hmem, rfl, hdue.1,
            by simpa using hdue.2, (Option.some.inj h).symm⟩))))
  | resume f =>
      rw [step] at h
      cases hget : Dict.lookupEntries f s.futures with
      | none => rw [hget] at h; cases h
      | some o =>
          rw [hget] at h
          cases o with
          | cancelled => cases h
          | result r =>
              dsimp only at h
              split_ifs at h with hret
              exact Or.inr (Or.inr (Or.inr (Or.inr (Or.inr ⟨f, r, rfl,
                Dict.mem_of_lookupEntries hget, by simpa using hret,
                (Option.some.inj h).symm⟩))))

/-- A registration is an arrival at the queue, or has raised an exception. -/
theorem runSingle_cases (env : Env) (uid text reference : String) (s : State) :
    runSingle env uid text reference s = s ∨
    ∃ question formatOk, runSingle env uid text reference s = { s with
      queue := s.queue.arrive (policy env.cfg)
        (groupUid env.hash uid (strip reference))
        ⟨question, strip reference, formatOk, s.nextFuture⟩
      nextFuture := s.nextFuture + 1 } := by
  unfold runSingle
  cases extractGeneratedQuestion env.py env.loads text with
  | error exc => exact Or.inl rfl
  | ok q => exact Or.inr ⟨q.1, q.2, rfl⟩

/-- Under `State.queue` the manager is the batching machine. -/
theorem queue_reachable {t₀ : ℚ} {s : State}
    (h : (machine env t₀).Reachable s) :
    (Batching.machine (policy env.cfg) t₀).Reachable s.queue := by
  refine Machine.Reachable.simulate
    (N := Batching.machine (policy env.cfg) t₀) State.queue rfl ?_ h
  intro s e s' hs
  rcases step_cases hs with ⟨uid, text, reference, -, rfl⟩ |
    ⟨c, -, hc, hdue, rfl⟩ | ⟨b, reply, -, -, rfl⟩ | ⟨t, -, ht, rfl⟩ |
    ⟨a, -, -, -, -, rfl⟩ | ⟨f, r, -, -, -, rfl⟩
  · rcases runSingle_cases env uid text reference s with
      heq | ⟨question, formatOk, heq⟩
    · exact Or.inl (by rw [heq])
    · exact Or.inr ⟨.arrive _ _, by rw [heq]; rfl⟩
  · exact Or.inr ⟨.fire c, if_pos ⟨hc, hdue⟩⟩
  · exact Or.inl rfl
  · exact Or.inr ⟨.wait t, if_pos ht⟩
  · exact Or.inl rfl
  · exact Or.inl rfl

/-! ## The invariant -/

/-- What holds between the queue, the groups in flight and the futures. -/
structure Inv (env : Env) (s : State) : Prop where
  numbered : s.queue.arrivals.map (·.item.future) = List.range s.nextFuture
  once : (s.futures.map Prod.fst).Nodup
  popped : ∀ b ∈ s.inflight, b ∈ s.queue.batches
  origin : ∀ f r, (f, .result r) ∈ s.futures →
    ∃ b ∈ s.queue.batches, ∃ reply,
      (f, r) ∈ (finalizeTeacherGroup env.py env.ratio env.cfg b.key b.items
        reply).1
  returnedOrigin : ∀ f r, (f, r) ∈ s.returned →
    (f, .result r) ∈ s.futures ∨
    ∃ a ∈ s.queue.arrivals, a.item.future = f ∧ r = timeoutResult a.key a.item

theorem inv_initial (env : Env) (t₀ : ℚ) : Inv env (initial t₀) where
  numbered := rfl
  once := List.nodup_nil
  popped := by simp [initial]
  origin := by simp [initial]
  returnedOrigin := by simp [initial]

theorem inv_runSingle {s : State} (hi : Inv env s)
    (uid text reference : String) :
    Inv env (runSingle env uid text reference s) := by
  rcases runSingle_cases env uid text reference s with
    heq | ⟨question, formatOk, heq⟩
  · rw [heq]
    exact hi
  · rw [heq]
    exact {
      numbered := by simp [hi.numbered, List.range_succ]
      once := hi.once
      popped := by simpa using hi.popped
      origin := by simpa using hi.origin
      returnedOrigin := by
        intro f r hr
        apply (hi.returnedOrigin f r hr).imp_right
        rintro ⟨a, ha, hf, heq⟩
        exact ⟨a, mem_arrivals_arrive ha, hf, heq⟩ }

theorem inv_pop {s : State} (hi : Inv env s) (c : Callback String ℚ) :
    Inv env (pop c s) where
  numbered := hi.numbered
  once := hi.once
  popped := by
    intro b hb
    have hcase : b ∈ s.inflight ∨
        (s.queue.items c.key ≠ [] ∧ b = ⟨c.key, s.queue.items c.key⟩) := by
      rw [pop] at hb
      dsimp only at hb
      split_ifs at hb with hnil
      · exact Or.inl hb
      · rw [List.mem_append, List.mem_singleton] at hb
        exact hb.imp_right fun heq => ⟨hnil, heq⟩
    exact State.mem_batches_flush.mpr (hcase.imp_left (hi.popped b))
  origin := by
    intro f r hf
    obtain ⟨b, hb, reply, hmem⟩ := hi.origin f r hf
    exact ⟨b, State.mem_batches_flush.mpr (Or.inl hb), reply, hmem⟩
  returnedOrigin := hi.returnedOrigin

theorem inv_answer {s : State} (hi : Inv env s) {b : Batch String TeacherItem}
    (hb : b ∈ s.inflight) (reply : Reply) : Inv env (answer env b reply s) where
  numbered := hi.numbered
  once := setResults_once hi.once
  popped := fun b' hb' => hi.popped b' (List.mem_of_mem_erase hb')
  origin := by
    intro f r hf
    rcases mem_setResults hf with hold | ⟨-, r', hmem, heq⟩
    · exact hi.origin f r hold
    · obtain rfl : r = r' := by injection heq
      exact ⟨b, hi.popped b hb, reply, hmem⟩
  returnedOrigin := fun f r hr =>
    (hi.returnedOrigin f r hr).imp_left mem_setResults_of_mem

theorem inv_step {s s' : State} {e : Event} (hi : Inv env s)
    (h : step env s e = some s') : Inv env s' := by
  rcases step_cases h with ⟨uid, text, reference, -, rfl⟩ |
    ⟨c, -, -, -, rfl⟩ | ⟨b, reply, -, hb, rfl⟩ | ⟨t, -, -, rfl⟩ |
    ⟨a, ha, -, -, -, rfl⟩ | ⟨f, r, -, hr, -, rfl⟩
  · exact inv_runSingle hi uid text reference
  · exact inv_pop hi c
  · exact inv_answer hi hb reply
  · exact ⟨hi.numbered, hi.once, hi.popped, hi.origin, hi.returnedOrigin⟩
  · refine ⟨hi.numbered, cancel_once hi.once _, hi.popped, ?_, ?_⟩
    · intro f r hf
      exact hi.origin f r (mem_result_cancel.mp hf)
    · exact returned_of_late hi.returnedOrigin ⟨a, ha, rfl, rfl⟩
  · refine ⟨hi.numbered, hi.once, hi.popped, hi.origin, ?_⟩
    exact returned_of_result hi.returnedOrigin hr

theorem reachable_inv {t₀ : ℚ} {s : State} (h : (machine env t₀).Reachable s) :
    Inv env s :=
  Machine.ReachableIf.invariant (I := Inv env) (inv_initial env t₀)
    (fun _ _ _ _ hi _ hs => inv_step hi hs) h

/-- A loader for responses that contain no JSON object. -/
def exampleLoads (_ : String) : Except LoadsError Json :=
  .error .jsonDecodeError

def exampleEnv : Env :=
  ⟨exampleTeacherConfig, Builtins.plain, exampleLoads, fun _ _ => 0,
    fun _ => 0⟩

end TTSR.Reward.Teacher
