import Mathlib.Algebra.BigOperators.Fin
import Mathlib.Algebra.Order.BigOperators.Group.Finset
import TTSR.Reward.GroupIntegrity

/-!
# Several reward workers

`reward.num_workers` workers have a reward manager each, and `_compute_score` of
the agent loop picks one of them at random for every rollout. The managers do
not share what they keep of a group, so a group is finalised whole only if all
its rollouts happen to go to the same worker. The training scripts set the
number of workers to 1; the default is 8.

- `whole_iff_one_worker`: when a group is finalised whole, and what it gets
  otherwise.
-/

namespace TTSR.Reward

open TTSR.Foundation TTSR.Foundation.Batching TTSR.Foundation.Futures

/-! ## Queues side by side -/

section Queues

variable {ι : Type} {w size : ℕ} {uid : String}

/-- The number of rollouts of `uid` on all workers. -/
def rolloutsOf (queues : Fin w → Batching.State String ι ℚ) (uid : String) : ℕ :=
  ∑ i, ((queues i).arrivalsOf uid).length

/-- The rollouts of `uid` all went to worker `i`. -/
def OnlyWorker (queues : Fin w → Batching.State String ι ℚ) (uid : String)
    (i : Fin w) : Prop :=
  ∀ j, j ≠ i → (queues j).arrivalsOf uid = []

/-- One of the managers finalised a group of the expected size. -/
def FinalisedWhole (queues : Fin w → Batching.State String ι ℚ) (size : ℕ)
    (uid : String) : Prop :=
  ∃ i, ∃ b ∈ (queues i).batchesOf uid, b.items.length = size

/-- The rollouts of `uid` are as many as expected, arrived at every worker within
the wait time, and none waits for a timer. -/
structure Arrived (p : Policy ℚ) (queues : Fin w → Batching.State String ι ℚ)
    (uid : String) : Prop where
  size : rolloutsOf queues uid = p.size
  within : ∀ i, WithinDelay p (queues i) uid
  flushed : ∀ i, ∀ c ∈ (queues i).pending, c.key ≠ uid

/-- The group is finalised whole exactly if it was not split; the results of a
group that was split are from groups that are too small. -/
structure NeedsOneWorker (queues : Fin w → Batching.State String ι ℚ)
    (futures : Fin w → Log RewardResult) (future : ι → ℕ) (size : ℕ)
    (uid : String) : Prop where
  whole : FinalisedWhole queues size uid ↔ ∃ i, OnlyWorker queues uid i
  split : (¬∃ i, OnlyWorker queues uid i) →
    ∀ i, ∀ it ∈ (queues i).arrivalsOf uid, ∀ r,
      (future it, .result r) ∈ futures i →
      ∀ n : ℤ, r.field "group_size" = some (.int n) → n < size

variable {queues : Fin w → Batching.State String ι ℚ} {i : Fin w}

theorem length_le_rolloutsOf (i : Fin w) :
    ((queues i).arrivalsOf uid).length ≤ rolloutsOf queues uid :=
  Finset.single_le_sum (f := fun i => ((queues i).arrivalsOf uid).length)
    (fun _ _ => Nat.zero_le _) (Finset.mem_univ i)

theorem length_eq_rolloutsOf_iff :
    ((queues i).arrivalsOf uid).length = rolloutsOf queues uid ↔
      OnlyWorker queues uid i := by
  rw [rolloutsOf, ← Finset.add_sum_erase _ _ (Finset.mem_univ i)]
  constructor
  · intro h j hj
    have hzero : ∑ j ∈ Finset.univ.erase i, ((queues j).arrivalsOf uid).length = 0 := by
      omega
    have hnone := Finset.sum_eq_zero_iff.mp hzero j
      (Finset.mem_erase.mpr ⟨hj, Finset.mem_univ j⟩)
    exact List.length_eq_zero_iff.mp hnone
  · intro h
    have hzero : ∑ j ∈ Finset.univ.erase i, ((queues j).arrivalsOf uid).length = 0 :=
      Finset.sum_eq_zero fun j hj =>
        List.length_eq_zero_iff.mpr (h j (Finset.mem_erase.mp hj).1)
    rw [hzero, Nat.add_zero]

theorem onlyWorker_of_finalisedWhole (hi : ∀ i, Batching.Inv (queues i))
    (hsize : rolloutsOf queues uid = size) (h : FinalisedWhole queues size uid) :
    ∃ i, OnlyWorker queues uid i := by
  obtain ⟨i, b, hb, hlength⟩ := h
  obtain ⟨hmem, rfl⟩ := mem_batchesOf.mp hb
  have hle := length_batch_le (hi i) hmem
  rw [hlength, ← hsize] at hle
  exact ⟨i, length_eq_rolloutsOf_iff.mp (le_antisymm (length_le_rolloutsOf i) hle)⟩

/-- Every worker has too few rollouts of a group that was split. -/
theorem length_lt_of_split (hsize : rolloutsOf queues uid = size)
    (hsplit : ¬∃ i, OnlyWorker queues uid i) (i : Fin w) :
    ((queues i).arrivalsOf uid).length < size := by
  refine lt_of_le_of_ne (hsize ▸ length_le_rolloutsOf i) fun heq => hsplit ⟨i, ?_⟩
  exact length_eq_rolloutsOf_iff.mp (heq.trans hsize.symm)

/-- What the managers have to give: a result tells at most the number of the
rollouts of its worker. -/
theorem needsOneWorker {p : Policy ℚ} {t₀ : Fin w → ℚ}
    {futures : Fin w → Log RewardResult} {future : ι → ℕ}
    (h : ∀ i, (Batching.machine p (t₀ i)).Reachable (queues i))
    (ha : Arrived p queues uid)
    (hle : ∀ i, ∀ it ∈ (queues i).arrivalsOf uid, ∀ r,
      (future it, .result r) ∈ futures i →
      ∀ n : ℤ, r.field "group_size" = some (.int n) →
        n ≤ ((queues i).arrivalsOf uid).length) :
    NeedsOneWorker queues futures future p.size uid where
  whole := by
    constructor
    · exact onlyWorker_of_finalisedWhole (fun i => Batching.reachable_inv (h i)) ha.size
    · rintro ⟨i, hi⟩
      have hall := (length_eq_rolloutsOf_iff.mpr hi).trans ha.size
      refine ⟨i, ⟨uid, (queues i).arrivalsOf uid⟩, ?_, hall⟩
      rw [whole_group_flushed (h i) (ha.within i) hall (ha.flushed i)]
      exact List.mem_singleton_self _
  split := by
    intro hsplit i it hit r hr n hn
    have hn' := hle i it hit r hr n hn
    have hlt := length_lt_of_split ha.size hsplit i
    omega

end Queues

/-! ## The managers -/

/-- The size of the group in a result is that of a batch of its manager. -/
theorem Majority.groupSize_le {cfg : MajorityConfig} {s : Majority.State}
    (hq : Batching.Inv s.queue) (hi : Majority.Inv cfg s) {uid : String}
    {it : PendingItem} (hit : it ∈ s.queue.arrivalsOf uid) {r : RewardResult}
    (hr : (it.future, .result r) ∈ s.futures) {n : ℤ}
    (hn : r.field "group_size" = some (.int n)) :
    n ≤ (s.queue.arrivalsOf uid).length := by
  obtain ⟨b, hb, it', hit', hf, rfl⟩ := hi.origin it.future r hr
  obtain ⟨rfl, -⟩ := batch_of_tag hq (Majority.futures_nodup hi) hit hb hit' hf
  have hfield : (itemResult cfg b.key b.items it').field "group_size" =
      some (.int b.items.length) := rfl
  rw [hfield] at hn
  obtain rfl := Json.int.inj (Option.some.inj hn)
  exact_mod_cast length_batch_le hq hb

theorem Teacher.groupSize_le {env : Teacher.Env} {s : Teacher.State}
    (hq : Batching.Inv s.queue) (hi : Teacher.Inv env s) {uid : String}
    {it : TeacherItem} (hit : it ∈ s.queue.arrivalsOf uid) {r : RewardResult}
    (hr : (it.future, .result r) ∈ s.futures) {n : ℤ}
    (hn : r.field "group_size" = some (.int n)) :
    n ≤ (s.queue.arrivalsOf uid).length := by
  obtain ⟨b, hb, reply, hmem⟩ := hi.origin it.future r hr
  obtain ⟨j, it', hit', hf, hres⟩ := mem_finalizeTeacherGroup hmem
  obtain ⟨rfl, -⟩ := batch_of_tag hq (Teacher.futures_nodup hi) hit hb
    (List.mem_of_getElem? hit') hf
  rcases hres with ⟨exc, rfl⟩ | rfl | ⟨score, rolloutN, pseudoTarget, rfl⟩
  -- a zero result has no group size
  · cases hn
  · cases hn
  · have hfield : (scored env.ratio env.cfg b.key b.items j it' score rolloutN
        pseudoTarget).field "group_size" = some (.int b.items.length) := rfl
    rw [hfield] at hn
    obtain rfl := Json.int.inj (Option.some.inj hn)
    exact_mod_cast length_batch_le hq hb

/-- **A group needs one worker.** Let the rollouts of `uid` be as many as
expected, arrive at every worker within the wait time, and none be pending. Then
they are finalised in one group if and only if they all went to one worker, and a
group that was split gets results from groups that are too small. This holds of
both managers, for any number of workers. -/
theorem whole_iff_one_worker (cfg : MajorityConfig) (hash : String → ℤ)
    (env : Teacher.Env) {w : ℕ} (t₀ : Fin w → ℚ) (uid : String) :
    (∀ s, (Machine.pool fun i => Majority.machine cfg hash (t₀ i)).Reachable s →
      Arrived (Majority.policy cfg) (fun i => (s i).queue) uid →
      NeedsOneWorker (fun i => (s i).queue) (fun i => (s i).futures) (·.future)
          cfg.expectedGroupSize uid ∧
        ∀ i, OnlyWorker (fun i => (s i).queue) uid i →
          Majority.WholeGroup cfg (s i) uid) ∧
    (∀ s, (Machine.pool fun i => Teacher.machine env (t₀ i)).Reachable s →
      Arrived (Teacher.policy env.cfg) (fun i => (s i).queue) uid →
      NeedsOneWorker (fun i => (s i).queue) (fun i => (s i).futures) (·.future)
          env.cfg.expectedGroupSize uid ∧
        ∀ i, OnlyWorker (fun i => (s i).queue) uid i →
          Teacher.WholeGroup env (s i) uid) := by
  constructor
  · intro s h ha
    have hqueue := fun i => Majority.queue_reachable (h.component i)
    constructor
    · apply needsOneWorker hqueue ha
      intro i it hit r hr n hn
      exact Majority.groupSize_le (Batching.reachable_inv (hqueue i))
        (Majority.reachable_inv (h.component i)) hit hr hn
    · intro i hi
      exact Majority.wholeGroup (h.component i) (ha.within i)
        ((length_eq_rolloutsOf_iff.mpr hi).trans ha.size)
  · intro s h ha
    have hqueue := fun i => Teacher.queue_reachable (h.component i)
    constructor
    · apply needsOneWorker hqueue ha
      intro i it hit r hr n hn
      exact Teacher.groupSize_le (Batching.reachable_inv (hqueue i))
        (Teacher.reachable_inv (h.component i)) hit hr hn
    · intro i hi
      exact Teacher.wholeGroup (h.component i) (ha.within i)
        ((length_eq_rolloutsOf_iff.mpr hi).trans ha.size)

/-- The two rollouts of a group are sent to different workers; each worker's timer
finalises its half. -/
def exampleSplitGroup : List (Fin 2 × Majority.Event) :=
  [(0, .runSingle "u" "\\boxed{1}"), (1, .runSingle "u" "\\boxed{2}"),
   (0, .clock 1), (1, .clock 1), (0, .callback ⟨"u", 2 / 25⟩),
   (1, .callback ⟨"u", 2 / 25⟩)]

theorem whole_iff_one_worker_exampleSplitGroup :
    ∃ s, (Machine.pool fun _ : Fin 2 =>
        Majority.machine Majority.exampleConfig (fun _ => 0) 0).Reachable s ∧
      (¬∃ i, OnlyWorker (fun i => (s i).queue) "u" i) ∧
      NeedsOneWorker (fun i => (s i).queue) (fun i => (s i).futures) (·.future)
        Majority.exampleConfig.expectedGroupSize "u" := by
  obtain ⟨s, hr, hp⟩ := Machine.exists_reachable_of_run
    (M := Machine.pool fun _ : Fin 2 =>
      Majority.machine Majority.exampleConfig (fun _ => 0) 0)
    (p := fun s => rolloutsOf (fun i => (s i).queue) "u" = 2 ∧
      (∀ i, WithinDelay (Majority.policy Majority.exampleConfig) (s i).queue "u") ∧
      (∀ i, ∀ c ∈ (s i).queue.pending, c.key ≠ "u") ∧
      ∀ i, ((s i).queue.arrivalsOf "u").length = 1)
    exampleSplitGroup (by decide +kernel)
  obtain ⟨hsize, hin, hflushed, hhalf⟩ := of_decide_eq_true hp
  refine ⟨s, hr, ?_, ((whole_iff_one_worker Majority.exampleConfig (fun _ => 0)
    Teacher.exampleEnv (fun _ => 0) "u").1 s hr ⟨hsize, hin, hflushed⟩).1⟩
  rintro ⟨i, hi⟩
  have hall := length_eq_rolloutsOf_iff.mpr hi
  rw [hsize, hhalf i] at hall
  cases hall

end TTSR.Reward
