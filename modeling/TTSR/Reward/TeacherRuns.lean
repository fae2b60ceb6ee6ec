import TTSR.Reward.GroupIntegrity

/-!
# No Teacher rollout is lost

The Teacher manager gives up control between the pop of a group and its results.
Meanwhile rollouts of the same uid register, callbacks fire, results time out
and other groups are evaluated. In every such run each rollout is in one place,
each group is evaluated once, and each result was computed for the rollout it is
returned to. Once nothing is scheduled or in flight, every rollout has been dealt
with, if no evaluation has ended with an exception.
-/

namespace TTSR.Reward.Teacher

open TTSR.Foundation TTSR.Foundation.Batching TTSR.Foundation.Futures
open TTSR.Foundation.Text

variable {env : Env}

/-- A step whose evaluation, if it is one, ends without an exception. -/
def Ends (env : Env) : Event → Prop
  | .evaluated b reply =>
      (finalizeTeacherGroup env.py env.ratio env.cfg b.key b.items reply).2 = none
  | _ => True

/-- What the evaluator answered when a group was evaluated. -/
def repliesTo (b : Batch String TeacherItem) (events : List Event) :
    List Reply :=
  events.filterMap fun
    | .evaluated b' reply => if b' = b then some reply else none
    | _ => none

/-- The log of the returned results has one entry for each rollout, and no group
is in flight twice. -/
structure Once (s : State) : Prop where
  returned : (s.returned.map Prod.fst).Nodup
  inflight : s.inflight.Nodup

/-- A group that is not in flight any more has been answered. -/
def Settled (s : State) : Prop :=
  ∀ b ∈ s.queue.batches, b ∉ s.inflight →
    ∀ it ∈ b.items, isDone s.futures it.future = true

/-! ## Groups in flight -/

/-- A waiting list is not the content of a group that was flushed before. -/
theorem notMem_batches {s : State} (hq : Batching.Inv s.queue)
    (hi : Inv env s) {uid : String} (hne : s.queue.items uid ≠ []) :
    (⟨uid, s.queue.items uid⟩ : Batch String TeacherItem) ∉
      s.queue.batches := by
  intro hmem
  obtain ⟨it, hit⟩ := List.exists_mem_of_ne_nil _ hne
  obtain ⟨a, ha, hkey, rfl⟩ := arrived_of_mem_items hq hit
  have hplaced := placedOnce hq (items_nodup hi) ha
  rw [← hkey] at hit hmem
  rcases hplaced.2 with ⟨-, hnone⟩ | ⟨hnot, -⟩
  · exact hnone _ hmem hit
  · exact hnot hit

theorem once_step {s s' : State} {e : Event} (hq : Batching.Inv s.queue)
    (hi : Inv env s) (ho : Once s) (h : step env s e = some s') : Once s' := by
  have hlog : ∀ f r, hasReturned s f = false →
      ((s.returned ++ [(f, r)]).map Prod.fst).Nodup := by
    intro f r hf
    rw [List.map_append, List.nodup_append]
    refine ⟨ho.returned, List.nodup_singleton _, ?_⟩
    rintro g hg g' hg' rfl
    obtain rfl : g = f := by simpa using hg'
    rw [hasReturned, List.contains_eq_mem, decide_eq_false_iff_not] at hf
    exact hf hg
  rcases step_cases h with ⟨uid, text, reference, -, rfl⟩ |
    ⟨c, -, -, -, rfl⟩ | ⟨b, reply, -, -, rfl⟩ | ⟨t, -, -, rfl⟩ |
    ⟨a, -, -, -, hret, rfl⟩ | ⟨f, r, -, -, hret, rfl⟩
  · rcases runSingle_cases env uid text reference s with
      heq | ⟨question, formatOk, heq⟩
    · rw [heq]
      exact ho
    · rw [heq]
      exact ⟨ho.returned, ho.inflight⟩
  · refine ⟨ho.returned, ?_⟩
    rw [pop]
    dsimp only
    split_ifs with hnil
    · exact ho.inflight
    · rw [List.nodup_append]
      refine ⟨ho.inflight, List.nodup_singleton _, ?_⟩
      rintro b hb b' hb' rfl
      obtain rfl := List.mem_singleton.mp hb'
      exact notMem_batches hq hi hnil (hi.popped _ hb)
  · exact ⟨ho.returned, ho.inflight.erase b⟩
  · exact ⟨ho.returned, ho.inflight⟩
  · exact ⟨hlog _ _ hret, ho.inflight⟩
  · exact ⟨hlog _ _ hret, ho.inflight⟩

theorem reachable_once {t₀ : ℚ} {s : State}
    (h : (machine env t₀).Reachable s) : Once s := by
  refine Machine.ReachableIf.invariant (I := Once) ?_ ?_ h
  · exact ⟨List.nodup_nil, List.nodup_nil⟩
  · intro s e s' hr ho _ hs
    exact once_step (Batching.reachable_inv (queue_reachable hr))
      (reachable_inv hr) ho hs

/-! ## Groups that were evaluated -/

theorem settled_step {s s' : State} {e : Event} (hset : Settled s)
    (he : Ends env e) (h : step env s e = some s') : Settled s' := by
  rcases step_cases h with ⟨uid, text, reference, -, rfl⟩ |
    ⟨c, -, -, -, rfl⟩ | ⟨b, reply, rfl, hb, rfl⟩ | ⟨t, -, -, rfl⟩ |
    ⟨a, -, -, -, -, rfl⟩ | ⟨f, r, -, -, -, rfl⟩
  · rcases runSingle_cases env uid text reference s with
      heq | ⟨question, formatOk, heq⟩
    · rw [heq]
      exact hset
    · rw [heq]
      intro b hb
      exact hset b (by simpa using hb)
  · intro b hb hnot it hit
    rw [pop] at hnot
    dsimp only at hnot
    rcases State.mem_batches_flush.mp hb with hold | ⟨hne, rfl⟩
    · refine hset b hold (fun hmem => hnot ?_) it hit
      split_ifs
      · exact hmem
      · exact List.mem_append_left _ hmem
    · rw [if_neg hne] at hnot
      exact absurd (List.mem_append_right _ (List.mem_singleton_self _)) hnot
  · intro b' hb' hnot it hit
    by_cases heq : b' = b
    · subst heq
      refine isDone_setResults (Or.inr ?_)
      rw [map_fst_finalizeTeacherGroup he]
      exact List.mem_map_of_mem hit
    · refine isDone_setResults (Or.inl (hset b' hb' (fun hmem => hnot ?_) it hit))
      exact (List.mem_erase_of_ne heq).mpr hmem
  · exact hset
  · intro b hb hnot it hit
    exact isDone_cancel_of_isDone (hset b hb hnot it hit)
  · exact hset

theorem reachable_settled {t₀ : ℚ} {s : State}
    (h : (machine env t₀).ReachableIf (fun _ => Ends env) s) : Settled s := by
  have hinit : Settled (initial t₀) := by
    intro b hb
    cases hb
  exact Machine.ReachableIf.invariant (I := Settled) hinit
    (fun _ _ _ _ hset he hs => settled_step hset he hs) h

/-! ## The reply to a group -/

theorem repliesTo_append (b : Batch String TeacherItem) (events : List Event)
    (e : Event) :
    repliesTo b (events ++ [e]) = repliesTo b events ++ repliesTo b [e] :=
  List.filterMap_append

theorem repliesTo_evaluated_self (b : Batch String TeacherItem)
    (reply : Reply) : repliesTo b [.evaluated b reply] = [reply] := by
  simp [repliesTo]

theorem repliesTo_evaluated_of_ne {b b' : Batch String TeacherItem}
    (h : b' ≠ b) (reply : Reply) :
    repliesTo b [.evaluated b' reply] = [] := by
  simp [repliesTo, h]

/-- A group has no reply while it is in flight, and every result follows from
the one reply to its group. -/
structure Answered (env : Env) (events : List Event) (s : State) : Prop where
  unanswered : ∀ b, b ∈ s.inflight ∨ b ∉ s.queue.batches →
    repliesTo b events = []
  origin : ∀ f r, (f, .result r) ∈ s.futures →
    ∃ b ∈ s.queue.batches, ∃ reply, repliesTo b events = [reply] ∧
      (f, r) ∈ (finalizeTeacherGroup env.py env.ratio env.cfg b.key b.items
        reply).1

/-- A step that evaluates nothing, and sends only new groups out. -/
theorem Answered.of_quiet {events : List Event} {s s' : State} {e : Event}
    (ha : Answered env events s) (hquiet : ∀ b, repliesTo b [e] = [])
    (hbatches : ∀ b ∈ s.queue.batches, b ∈ s'.queue.batches)
    (hinflight : ∀ b ∈ s'.inflight, b ∈ s.inflight ∨ b ∉ s.queue.batches)
    (hfutures : ∀ f r, (f, .result r) ∈ s'.futures →
      (f, .result r) ∈ s.futures) : Answered env (events ++ [e]) s' where
  unanswered := by
    intro b hb
    rw [repliesTo_append, hquiet, List.append_nil]
    rcases hb with hb | hb
    · exact ha.unanswered b (hinflight b hb)
    · exact ha.unanswered b (.inr fun hmem => hb (hbatches b hmem))
  origin := by
    intro f r hf
    obtain ⟨b, hb, reply, hreply, hmem⟩ := ha.origin f r (hfutures f r hf)
    refine ⟨b, hbatches b hb, reply, ?_, hmem⟩
    rw [repliesTo_append, hquiet, List.append_nil]
    exact hreply

theorem answered_answer {events : List Event} {s : State}
    (ha : Answered env events s) (hi : Inv env s) (ho : Once s)
    {b : Batch String TeacherItem} (hb : b ∈ s.inflight) (reply : Reply) :
    Answered env (events ++ [.evaluated b reply]) (answer env b reply s) where
  unanswered := by
    intro b' hb'
    have hne : b ≠ b' := by
      rintro rfl
      rcases hb' with hmem | hnot
      · exact ho.inflight.not_mem_erase hmem
      · exact hnot (hi.popped b hb)
    rw [repliesTo_append, repliesTo_evaluated_of_ne hne, List.append_nil]
    exact ha.unanswered b' (hb'.imp_left List.mem_of_mem_erase)
  origin := by
    intro f r hf
    rcases mem_setResults hf with hold | ⟨-, r', hmem, heq⟩
    · obtain ⟨b', hb', reply', hreply, hmem⟩ := ha.origin f r hold
      have hne : b ≠ b' := by
        rintro rfl
        rw [ha.unanswered b (.inl hb)] at hreply
        cases hreply
      refine ⟨b', hb', reply', ?_, hmem⟩
      rw [repliesTo_append, repliesTo_evaluated_of_ne hne, List.append_nil]
      exact hreply
    · obtain rfl : r = r' := by injection heq
      refine ⟨b, hi.popped b hb, reply, ?_, hmem⟩
      rw [repliesTo_append, ha.unanswered b (.inl hb),
        repliesTo_evaluated_self, List.nil_append]

theorem answered_step {events : List Event} {s s' : State} {e : Event}
    (ha : Answered env events s) (hq : Batching.Inv s.queue) (hi : Inv env s)
    (ho : Once s) (h : step env s e = some s') :
    Answered env (events ++ [e]) s' := by
  rcases step_cases h with ⟨uid, text, reference, rfl, rfl⟩ |
    ⟨c, rfl, -, -, rfl⟩ | ⟨b, reply, rfl, hb, rfl⟩ | ⟨t, rfl, -, rfl⟩ |
    ⟨a, -, rfl, -, -, rfl⟩ | ⟨f, r, rfl, -, -, rfl⟩
  · rcases runSingle_cases env uid text reference s with
      heq | ⟨question, formatOk, heq⟩
    · rw [heq]
      exact ha.of_quiet (fun _ => rfl) (fun _ hb => hb) (fun _ hb => .inl hb)
        fun _ _ hf => hf
    · rw [heq]
      exact ha.of_quiet (fun _ => rfl) (fun b hb => by simpa using hb)
        (fun _ hb => .inl hb) fun _ _ hf => hf
  · apply ha.of_quiet (fun _ => rfl)
    · intro b hb
      exact State.mem_batches_flush.mpr (.inl hb)
    · intro b hb
      rw [pop] at hb
      dsimp only at hb
      split_ifs at hb with hnil
      · exact .inl hb
      · rcases List.mem_append.mp hb with hold | hnew
        · exact .inl hold
        · obtain rfl := List.mem_singleton.mp hnew
          exact .inr (notMem_batches hq hi hnil)
    · intro f r hf
      exact hf
  · exact answered_answer ha hi ho hb reply
  · exact ha.of_quiet (fun _ => rfl) (fun _ hb => hb) (fun _ hb => .inl hb)
      fun _ _ hf => hf
  · exact ha.of_quiet (fun _ => rfl) (fun _ hb => hb) (fun _ hb => .inl hb)
      fun _ _ hf => mem_result_cancel.mp hf
  · exact ha.of_quiet (fun _ => rfl) (fun _ hb => hb) (fun _ hb => .inl hb)
      fun _ _ hf => hf

theorem run_answered {t₀ : ℚ} {events : List Event} {s : State}
    (h : (machine env t₀).run (initial t₀) events = some s) :
    Answered env events s := by
  refine Machine.run_invariant (M := machine env t₀)
    (I := fun events s => Answered env events s) ?_ ?_ h
  · constructor
    · intro b _
      rfl
    · intro f r hf
      cases hf
  · intro events s e s' hrun ha hs
    have hr : (machine env t₀).Reachable s :=
      Machine.reachable_of_run .init hrun
    exact answered_step ha (Batching.reachable_inv (queue_reachable hr))
      (reachable_inv hr) (reachable_once hr) hs

/-! ## Every run -/

/-- After these events no rollout is lost, stuck, evaluated twice or answered
with anything but a timeout or what the reply to its own group gives it. -/
structure NoneLost (env : Env) (events : List Event) (s : State) : Prop where
  scheduled : ∀ uid, s.queue.items uid ≠ [] →
    ∃ c ∈ s.queue.pending, c.key = uid
  placed : ∀ a ∈ s.queue.arrivals, PlacedOnce s.queue a
  awaitedOnce : s.inflight.Nodup ∧ ∀ b ∈ s.inflight, b ∈ s.queue.batches
  sameUid : ∀ b ∈ s.queue.batches, ∀ it ∈ b.items,
    ∃ a ∈ s.queue.arrivals, a.key = b.key ∧ a.item = it
  completedOnce : (s.futures.map Prod.fst).Nodup
  returnedOnce : (s.returned.map Prod.fst).Nodup
  ownResult : ∀ f r, (f, r) ∈ s.returned → ∃ a ∈ s.queue.arrivals,
    a.item.future = f ∧ (r = timeoutResult a.key a.item ∨
      ∃ b ∈ s.queue.batches, b.key = a.key ∧ a.item ∈ b.items ∧
        ∃ reply, repliesTo b events = [reply] ∧
          (f, r) ∈ (finalizeTeacherGroup env.py env.ratio env.cfg b.key b.items
            reply).1)

/-- Nothing is scheduled and nothing in flight: no list waits, and every rollout
has a result or was given up by its caller. -/
structure Finished (s : State) : Prop where
  waiting : s.queue.waiting.entries = [] ∧ s.queue.armed = ∅
  done : ∀ a ∈ s.queue.arrivals, (a.item.future, .cancelled) ∉ s.futures →
    ∃ r, (a.item.future, .result r) ∈ s.futures

/-- The rollout that a result was computed for. -/
theorem exists_arrival_of_result {events : List Event} {s : State}
    (hq : Batching.Inv s.queue) (ha : Answered env events s) {f : ℕ}
    {r : RewardResult} (h : (f, .result r) ∈ s.futures) :
    ∃ a ∈ s.queue.arrivals, a.item.future = f ∧
      ∃ b ∈ s.queue.batches, b.key = a.key ∧ a.item ∈ b.items ∧
        ∃ reply, repliesTo b events = [reply] ∧
          (f, r) ∈ (finalizeTeacherGroup env.py env.ratio env.cfg b.key b.items
            reply).1 := by
  obtain ⟨b, hb, reply, hreply, hmem⟩ := ha.origin f r h
  obtain ⟨i, it, hit, hf, -⟩ := mem_finalizeTeacherGroup hmem
  have hin := List.mem_of_getElem? hit
  obtain ⟨a, ha, hkey, rfl⟩ := arrived_of_mem_batch hq hb hin
  exact ⟨a, ha, hf, b, hb, hkey.symm, hin, reply, hreply, hmem⟩

/-- **No Teacher rollout is lost.** In every run of the manager. -/
theorem no_teacher_rollout_lost (env : Env) (t₀ : ℚ) (events : List Event)
    (s : State) (h : (machine env t₀).run (initial t₀) events = some s) :
    NoneLost env events s ∧
      ((∀ e ∈ events, Ends env e) → s.queue.pending = [] → s.inflight = [] →
        Finished s) := by
  have hreach : (machine env t₀).Reachable s :=
    Machine.reachable_of_run .init h
  have hq := Batching.reachable_inv (queue_reachable hreach)
  have hi := reachable_inv hreach
  constructor
  · have ho := reachable_once hreach
    exact {
      scheduled := fun uid hne => hq.scheduled uid (Or.inl hne)
      placed := fun a ha => placedOnce hq (items_nodup hi) ha
      awaitedOnce := ⟨ho.inflight, hi.popped⟩
      sameUid := fun b hb it hit => arrived_of_mem_batch hq hb hit
      completedOnce := hi.once
      returnedOnce := ho.returned
      ownResult := by
        intro f r hr
        rcases hi.returnedOrigin f r hr with hf | ⟨a, ha, hf, heq⟩
        · obtain ⟨a, ha, hf, hown⟩ :=
            exists_arrival_of_result hq (run_answered h) hf
          exact ⟨a, ha, hf, Or.inr hown⟩
        · exact ⟨a, ha, hf, Or.inl heq⟩ }
  · intro hends hp hnone
    have hsettled : Settled s := reachable_settled
      (Machine.reachableIf_of_run .init (fun e he _ => hends e he) h)
    refine ⟨Batching.drained hq hp, fun a ha hnot => ?_⟩
    have hwaiting : s.queue.items a.key = [] := by
      by_contra hne
      obtain ⟨c, hc, -⟩ := hq.scheduled a.key (Or.inl hne)
      rw [hp] at hc
      cases hc
    rcases (placedOnce hq (items_nodup hi) ha).2 with
      ⟨hmem, -⟩ | ⟨-, pre, b, post, hsplit, -, hit, -⟩
    · rw [hwaiting] at hmem
      cases hmem
    · have hb : b ∈ s.queue.batches := by
        rw [hsplit]
        exact List.mem_append_right _ List.mem_cons_self
      have hland : b ∉ s.inflight := by
        rw [hnone]
        exact List.not_mem_nil
      obtain ⟨o, ho⟩ := isDone_iff.mp (hsettled b hb hland _ hit)
      cases o with
      | result r => exact ⟨r, ho⟩
      | cancelled => exact absurd ho hnot

instance (env : Env) : ∀ e, Decidable (Ends env e)
  | .evaluated b reply => inferInstanceAs (Decidable
      ((finalizeTeacherGroup env.py env.ratio env.cfg b.key b.items reply).2 =
        none))
  | .runSingle _ _ _ => isTrue trivial
  | .callback _ => isTrue trivial
  | .clock _ => isTrue trivial
  | .timeout _ => isTrue trivial
  | .resume _ => isTrue trivial

/-- A second rollout of a uid registers while the first one is evaluated. -/
def exampleOverlappingRun : List Event :=
  [.runSingle "u" "<question>1 + 1 = ?</question>" "2 + 2 = ?", .clock 1,
   .callback ⟨"u", 1⟩,
   .runSingle "u" "<question>1 + 2 = ?</question>" "2 + 2 = ?",
   .evaluated ⟨"u", [⟨"1 + 1 = ?", "2 + 2 = ?", true, 0⟩]⟩
    (.payload (.obj [("results", .arr [.obj []])])),
   .resume 0, .clock 2, .callback ⟨"u", 2⟩,
   .evaluated ⟨"u", [⟨"1 + 2 = ?", "2 + 2 = ?", true, 1⟩]⟩
    (.unavailable "<urlopen error [Errno 111] Connection refused>"),
   .resume 1]

theorem no_teacher_rollout_lost_exampleOverlappingRun :
    ∃ s, NoneLost exampleEnv exampleOverlappingRun s ∧ Finished s ∧
      s.returned.length = 2 := by
  obtain ⟨s, hrun, hp⟩ := Option.map_eq_some_iff.mp (by decide +kernel :
    ((machine exampleEnv 0).run (initial 0) exampleOverlappingRun).map
      (fun s => decide (s.returned.length = 2 ∧ s.queue.pending = [] ∧
        s.inflight = [])) = some true)
  obtain ⟨hlength, hpending, hinflight⟩ := of_decide_eq_true hp
  have hends : ∀ e ∈ exampleOverlappingRun, Ends exampleEnv e := by
    decide +kernel
  obtain ⟨hlost, hfinished⟩ :=
    no_teacher_rollout_lost exampleEnv 0 exampleOverlappingRun s hrun
  exact ⟨s, hlost, hfinished hends hpending hinflight, hlength⟩

end TTSR.Reward.Teacher
