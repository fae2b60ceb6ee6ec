import Mathlib.Tactic.NormNum
import TTSR.Foundation.Batching
import TTSR.Foundation.Futures
import TTSR.Reward.MajorityVote

/-!
# `TTSRMajorityRewardManager` as a machine

The event loop of the reward worker, one event for each piece of code that runs
without giving up control:

- `runSingle`: `run_single` from the decoded response to its `wait_for`. The
  lock is never held across an `await`, so nothing interleaves with it.
- `callback`: a scheduled lambda and the `_finalize_group` task it creates. The
  task runs one turn later; the delay is part of the freedom of the schedule.
- `timeout`: `wait_for` gives up on a future, cancels it if it is not done, and
  `run_single` returns the timeout dictionary.
- `resume`: `run_single` wakes up with the result of its future.
- `clock`: time passes.

`hash` is the hash of the language, which the fallback key of a rollout without
uid is made of.
-/

namespace TTSR.Reward.Majority

open TTSR.Foundation TTSR.Foundation.Batching TTSR.Foundation.Futures

/-- `group_wait_ms` and `expected_group_size` as a flushing policy, in
seconds. -/
def policy (cfg : MajorityConfig) : Policy ℚ where
  size := cfg.expectedGroupSize
  delay := max (1 / 1000) (cfg.groupWaitMs / 1000)
  size_pos := cfg.expectedGroupSize_pos

structure State where
  /-- `_group_items`, `_group_timer_set` and what the loop has scheduled. -/
  queue : Batching.State String PendingItem ℚ
  nextFuture : ℕ
  futures : Log RewardResult
  /-- What the calls of `run_single` have returned, by future. -/
  returned : List (ℕ × RewardResult)

inductive Event where
  | runSingle (uid responseText : String)
  | callback (c : Callback String ℚ)
  | clock (t : ℚ)
  | timeout (f : ℕ)
  | resume (f : ℕ)

def initial (t₀ : ℚ) : State := ⟨Batching.initial t₀, 0, [], []⟩

/-- The key of a rollout. -/
def groupUid (hash : String → ℤ) (uid responseText : String) : String :=
  if uid = "" then "fallback::" ++ toString (hash responseText) else uid

def runSingle (cfg : MajorityConfig) (hash : String → ℤ)
    (uid responseText : String) (s : State) : State :=
  { s with
    queue := s.queue.arrive (policy cfg) (groupUid hash uid responseText)
      ⟨extractFinalAnswer responseText, s.nextFuture⟩
    nextFuture := s.nextFuture + 1 }

/-- `_finalize_group` when the callback `c` has run: pop the items, and answer
those whose futures are not done. -/
def finalize (cfg : MajorityConfig) (c : Callback String ℚ) (s : State) :
    State :=
  { s with
    queue := s.queue.fire c
    futures := setResults s.futures
      (finalizeGroup cfg c.key (s.queue.items c.key)) }

/-- The dictionary of a rollout whose result did not arrive in time. -/
def timeoutResult (cfg : MajorityConfig) (groupUid : String)
    (item : PendingItem) : RewardResult where
  rewardScore := .fin cfg.defaultEmptyReward
  rewardExtraInfo :=
    [("group_uid", .str groupUid),
     ("pseudo_target", .str ""),
     ("extracted_answer", .str item.extractedAnswer),
     ("acc", .float (.fin 0)),
     ("timeout", .bool true)]

def hasReturned (s : State) (f : ℕ) : Bool :=
  (s.returned.map Prod.fst).contains f

def step (cfg : MajorityConfig) (hash : String → ℤ) (s : State) :
    Event → Option State
  | .runSingle uid text => some (runSingle cfg hash uid text s)
  | .callback c =>
      if c ∈ s.queue.pending ∧ c.due ≤ s.queue.now then some (finalize cfg c s)
      else none
  | .clock t =>
      if s.queue.now ≤ t then some { s with queue := { s.queue with now := t } }
      else none
  | .timeout f =>
      match s.queue.arrivals.find? (·.item.future = f) with
      | some a =>
          if a.time + cfg.resultTimeoutS ≤ s.queue.now ∧ !hasReturned s f then
            some { s with
              futures := cancel s.futures f
              returned := s.returned ++ [(f, timeoutResult cfg a.key a.item)] }
          else none
      | none => none
  | .resume f =>
      match Dict.lookupEntries f s.futures with
      | some (.result r) =>
          if hasReturned s f then none
          else some { s with returned := s.returned ++ [(f, r)] }
      | _ => none

def machine (cfg : MajorityConfig) (hash : String → ℤ) (t₀ : ℚ) :
    Machine State Event := ⟨initial t₀, step cfg hash⟩

/-! ## What one step does -/

/-- Everything a step can do, guards included. -/
theorem step_cases {cfg : MajorityConfig} {hash : String → ℤ} {s s' : State}
    {e : Event} (h : step cfg hash s e = some s') :
    (∃ uid text, e = .runSingle uid text ∧ s' = runSingle cfg hash uid text s) ∨
    (∃ c, e = .callback c ∧ c ∈ s.queue.pending ∧ c.due ≤ s.queue.now ∧
      s' = finalize cfg c s) ∨
    (∃ t, e = .clock t ∧ s.queue.now ≤ t ∧
      s' = { s with queue := { s.queue with now := t } }) ∨
    (∃ a ∈ s.queue.arrivals, e = .timeout a.item.future ∧
      a.time + cfg.resultTimeoutS ≤ s.queue.now ∧
      hasReturned s a.item.future = false ∧
      s' = { s with
        futures := cancel s.futures a.item.future
        returned := s.returned ++
          [(a.item.future, timeoutResult cfg a.key a.item)] }) ∨
    (∃ f r, e = .resume f ∧ (f, .result r) ∈ s.futures ∧
      hasReturned s f = false ∧
      s' = { s with returned := s.returned ++ [(f, r)] }) := by
  cases e with
  | runSingle uid text =>
      exact Or.inl ⟨uid, text, rfl, (Option.some.inj h).symm⟩
  | callback c =>
      rw [step] at h
      split_ifs at h with hc
      exact Or.inr (Or.inl ⟨c, rfl, hc.1, hc.2, (Option.some.inj h).symm⟩)
  | clock t =>
      rw [step] at h
      split_ifs at h with ht
      exact Or.inr (Or.inr (Or.inl ⟨t, rfl, ht, (Option.some.inj h).symm⟩))
  | timeout f =>
      rw [step] at h
      cases hfind : s.queue.arrivals.find? (·.item.future = f) with
      | none => rw [hfind] at h; cases h
      | some a =>
          simp only [hfind] at h
          split_ifs at h with hdue
          have hmem := List.mem_of_find?_eq_some hfind
          have hf : a.item.future = f := by simpa using List.find?_some hfind
          subst hf
          exact Or.inr (Or.inr (Or.inr (Or.inl ⟨a, hmem, rfl, hdue.1,
            by simpa using hdue.2, (Option.some.inj h).symm⟩)))
  | resume f =>
      rw [step] at h
      cases hget : Dict.lookupEntries f s.futures with
      | none => rw [hget] at h; cases h
      | some o =>
          rw [hget] at h
          cases o with
          | cancelled => cases h
          | result r =>
              dsimp only at h
              split_ifs at h with hret
              exact Or.inr (Or.inr (Or.inr (Or.inr ⟨f, r, rfl,
                Dict.mem_of_lookupEntries hget, by simpa using hret,
                (Option.some.inj h).symm⟩)))

/-- Under `State.queue` the manager is the batching machine: registrations,
callbacks and the clock are its steps, and the futures do not concern it. -/
theorem queue_reachable {cfg : MajorityConfig} {hash : String → ℤ} {t₀ : ℚ}
    {s : State} (h : (machine cfg hash t₀).Reachable s) :
    (Batching.machine (policy cfg) t₀).Reachable s.queue := by
  refine Machine.Reachable.simulate (N := Batching.machine (policy cfg) t₀)
    State.queue rfl ?_ h
  intro s e s' hs
  rcases step_cases hs with ⟨uid, text, -, rfl⟩ | ⟨c, -, hc, hdue, rfl⟩ |
    ⟨t, -, ht, rfl⟩ | ⟨a, -, -, -, -, rfl⟩ | ⟨f, r, -, -, -, rfl⟩
  · exact Or.inr ⟨.arrive _ _, rfl⟩
  · exact Or.inr ⟨.fire c, if_pos ⟨hc, hdue⟩⟩
  · exact Or.inr ⟨.wait t, if_pos ht⟩
  · exact Or.inl rfl
  · exact Or.inl rfl

/-! ## The invariant -/

/-- What holds between the queue and the futures. Futures are numbered in the
order of registration; every item of a batch has been dealt with; a result was
computed from the batch of its item, and `run_single` returns either such a
result or the timeout dictionary. -/
structure Inv (cfg : MajorityConfig) (s : State) : Prop where
  numbered : s.queue.arrivals.map (·.item.future) = List.range s.nextFuture
  once : (s.futures.map Prod.fst).Nodup
  answered : ∀ b ∈ s.queue.batches, ∀ it ∈ b.items,
    isDone s.futures it.future = true
  origin : ∀ f r, (f, .result r) ∈ s.futures →
    ∃ b ∈ s.queue.batches, ∃ it ∈ b.items,
      it.future = f ∧ r = itemResult cfg b.key b.items it
  returnedOrigin : ∀ f r, (f, r) ∈ s.returned →
    (f, .result r) ∈ s.futures ∨
    ∃ a ∈ s.queue.arrivals, a.item.future = f ∧
      r = timeoutResult cfg a.key a.item

theorem inv_initial (cfg : MajorityConfig) (t₀ : ℚ) : Inv cfg (initial t₀) where
  numbered := rfl
  once := List.nodup_nil
  answered := by simp [initial, Batching.initial]
  origin := by simp [initial]
  returnedOrigin := by simp [initial]

theorem inv_runSingle {cfg : MajorityConfig} {s : State} (hi : Inv cfg s)
    (hash : String → ℤ) (uid text : String) :
    Inv cfg (runSingle cfg hash uid text s) where
  numbered := by
    simp [runSingle, hi.numbered, List.range_succ]
  once := hi.once
  answered := by
    intro b hb
    rw [runSingle, State.arrive_batches] at hb
    exact hi.answered b hb
  origin := by
    intro f r hf
    rw [runSingle, State.arrive_batches]
    exact hi.origin f r hf
  returnedOrigin := by
    intro f r hr
    apply (hi.returnedOrigin f r hr).imp_right
    rintro ⟨a, ha, hf, heq⟩
    exact ⟨a, mem_arrivals_arrive ha, hf, heq⟩

/-- The batch a callback flushes is answered by the callback itself. -/
theorem inv_finalize {cfg : MajorityConfig} {s : State} (hi : Inv cfg s)
    (c : Callback String ℚ) : Inv cfg (finalize cfg c s) where
  numbered := hi.numbered
  once := setResults_once hi.once
  answered := by
    intro b hb it hit
    rcases State.mem_batches_flush.mp hb with hold | ⟨-, rfl⟩
    · exact isDone_setResults (Or.inl (hi.answered b hold it hit))
    · refine isDone_setResults (Or.inr ?_)
      simp only [finalizeGroup, List.map_map]
      exact List.mem_map.mpr ⟨it, hit, rfl⟩
  origin := by
    intro f r hf
    rcases mem_setResults hf with hold | ⟨-, r', hr', heq⟩
    · obtain ⟨b, hb, it, hit, hfut, hres⟩ := hi.origin f r hold
      exact ⟨b, State.mem_batches_flush.mpr (Or.inl hb), it, hit, hfut, hres⟩
    · obtain rfl : r = r' := by injection heq
      obtain ⟨it, hit, hpair⟩ := List.mem_map.mp hr'
      obtain ⟨hfut, hres⟩ := Prod.mk.inj hpair
      have hne : s.queue.items c.key ≠ [] := List.ne_nil_of_mem hit
      exact ⟨⟨c.key, s.queue.items c.key⟩,
        State.mem_batches_flush.mpr (Or.inr ⟨hne, rfl⟩), it, hit, hfut,
        hres.symm⟩
  returnedOrigin := fun f r hr =>
    (hi.returnedOrigin f r hr).imp_left mem_setResults_of_mem

theorem inv_step {cfg : MajorityConfig} {hash : String → ℤ} {s s' : State}
    {e : Event} (hi : Inv cfg s) (h : step cfg hash s e = some s') :
    Inv cfg s' := by
  rcases step_cases h with ⟨uid, text, -, rfl⟩ | ⟨c, -, -, -, rfl⟩ |
    ⟨t, -, -, rfl⟩ | ⟨a, ha, -, -, -, rfl⟩ | ⟨f, r, -, hr, -, rfl⟩
  · exact inv_runSingle hi hash uid text
  · exact inv_finalize hi c
  · exact ⟨hi.numbered, hi.once, hi.answered, hi.origin, hi.returnedOrigin⟩
  · refine ⟨hi.numbered, cancel_once hi.once _, ?_, ?_, ?_⟩
    · intro b hb it hit
      exact isDone_cancel_of_isDone (hi.answered b hb it hit)
    · intro f r hf
      exact hi.origin f r (mem_result_cancel.mp hf)
    · exact returned_of_late hi.returnedOrigin ⟨a, ha, rfl, rfl⟩
  · refine ⟨hi.numbered, hi.once, hi.answered, hi.origin, ?_⟩
    exact returned_of_result hi.returnedOrigin hr

theorem reachable_inv {cfg : MajorityConfig} {hash : String → ℤ} {t₀ : ℚ}
    {s : State} (h : (machine cfg hash t₀).Reachable s) : Inv cfg s :=
  Machine.ReachableIf.invariant (I := Inv cfg) (inv_initial cfg t₀)
    (fun _ _ _ _ hi _ hs => inv_step hi hs) h

theorem items_nodup {cfg : MajorityConfig} {s : State} (hi : Inv cfg s) :
    (s.queue.arrivals.map (·.item)).Nodup := by
  have hfut : ((s.queue.arrivals.map (·.item)).map (·.future)).Nodup := by
    rw [List.map_map]
    exact hi.numbered ▸ List.nodup_range
  exact hfut.of_map

/-- Once nothing is scheduled, every registered future is done. -/
theorem isDone_of_drained {cfg : MajorityConfig} {s : State}
    (hq : Batching.Inv s.queue) (hi : Inv cfg s) (hp : s.queue.pending = [])
    {a : Arrival String PendingItem ℚ} (ha : a ∈ s.queue.arrivals) :
    isDone s.futures a.item.future = true := by
  have hnone : s.queue.items a.key = [] := by
    by_contra hne
    obtain ⟨c, hc, -⟩ := hq.scheduled a.key (Or.inl hne)
    rw [hp] at hc
    cases hc
  rcases (placedOnce hq (items_nodup hi) ha).2 with
    ⟨hmem, -⟩ | ⟨-, pre, b, post, hsplit, -, hit, -⟩
  · rw [hnone] at hmem
    cases hmem
  · exact hi.answered b (by rw [hsplit]; simp) _ hit

/-! ## No rollout is lost -/

/-- In a state of the manager no rollout is lost, stuck, double-counted or mixed
across groups. -/
structure NoneLost (s : State) : Prop where
  scheduled : ∀ uid, s.queue.items uid ≠ [] →
    ∃ c ∈ s.queue.pending, c.key = uid
  placed : ∀ a ∈ s.queue.arrivals, PlacedOnce s.queue a
  sameUid : ∀ b ∈ s.queue.batches, ∀ it ∈ b.items,
    ∃ a ∈ s.queue.arrivals, a.key = b.key ∧ a.item = it
  completedOnce : (s.futures.map Prod.fst).Nodup
  completed : s.queue.pending = [] → ∀ a ∈ s.queue.arrivals,
    (a.item.future, .cancelled) ∉ s.futures →
    ∃ r, (a.item.future, .result r) ∈ s.futures
  drained : s.queue.pending = [] →
    s.queue.waiting.entries = [] ∧ s.queue.armed = ∅

/-- No rollout is lost, in any run of the manager. -/
theorem no_rollout_lost {cfg : MajorityConfig} {hash : String → ℤ} {t₀ : ℚ}
    {s : State} (h : (machine cfg hash t₀).Reachable s) : NoneLost s := by
  have hq := Batching.reachable_inv (queue_reachable h)
  have hi := reachable_inv h
  exact {
    scheduled := fun uid hne => hq.scheduled uid (Or.inl hne)
    placed := fun a ha => placedOnce hq (items_nodup hi) ha
    sameUid := fun b hb it hit => arrived_of_mem_batch hq hb hit
    completedOnce := hi.once
    completed := by
      intro hp a ha hnot
      obtain ⟨o, ho⟩ := isDone_iff.mp (isDone_of_drained hq hi hp ha)
      cases o with
      | result r => exact ⟨r, ho⟩
      | cancelled => exact absurd ho hnot
    drained := Batching.drained hq }

/-- Two rollouts of one uid, a stale timer and a straggler of another uid. -/
def exampleRun : List Event :=
  [.runSingle "u" "\\boxed{1}", .runSingle "v" "\\boxed{2}",
   .runSingle "u" "\\boxed{1}", .callback ⟨"u", 0⟩, .resume 0, .clock 1,
   .callback ⟨"u", 2 / 25⟩, .callback ⟨"v", 2 / 25⟩, .resume 2]

def exampleConfig : MajorityConfig := .ofKwargs ⟨some 80, some 30, none, some 2⟩

theorem no_rollout_lost_exampleRun :
    ∃ s, (machine exampleConfig (fun _ => 0) 0).run (initial 0) exampleRun =
      some s ∧ NoneLost s := by
  obtain ⟨s, hs⟩ := Option.isSome_iff_exists.mp
    (by decide +kernel : ((machine exampleConfig (fun _ => 0) 0).run (initial 0)
      exampleRun).isSome = true)
  exact ⟨s, hs, no_rollout_lost (Machine.reachable_of_run .init hs)⟩

end TTSR.Reward.Majority
