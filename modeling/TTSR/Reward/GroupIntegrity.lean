import TTSR.Reward.MajorityManager
import TTSR.Reward.TeacherManager

/-!
# Whole groups

A group is meant to be finalised whole: the pseudo label of a rollout is the
vote of its group, and a Teacher question is penalised against its group. The
size trigger alone does not ensure that. A rollout arrives when `run_single`
registers it, which is after its response was decoded. The wait timer, armed when
the first rollout of the group arrives, finalises whatever has arrived by then,
and a rollout that arrives later is judged in a group of its own.

`group_integrity` is what the two managers ensure: a group of the expected size
whose rollouts all arrive within the wait time is finalised in one call.
-/

namespace TTSR.Reward

open TTSR.Foundation TTSR.Foundation.Batching TTSR.Foundation.Futures

/-! ## The majority manager -/

/-- The group of `uid` is finalised in one call, and every result a member of it
gets is that of a vote over the whole group. -/
structure Majority.WholeGroup (cfg : MajorityConfig) (s : Majority.State)
    (uid : String) : Prop where
  oneCall : s.queue.batchesOf uid = [] ∨
    s.queue.batchesOf uid = [⟨uid, s.queue.arrivalsOf uid⟩]
  called : (∀ c ∈ s.queue.pending, c.key ≠ uid) →
    s.queue.batchesOf uid = [⟨uid, s.queue.arrivalsOf uid⟩]
  answered : (∀ c ∈ s.queue.pending, c.key ≠ uid) →
    ∀ it ∈ s.queue.arrivalsOf uid, (it.future, .cancelled) ∉ s.futures →
    ∃ r, (it.future, .result r) ∈ s.futures
  label : ∀ it ∈ s.queue.arrivalsOf uid, ∀ r,
    (it.future, .result r) ∈ s.futures →
    r.field "pseudo_target" =
        some (.str (vote (s.queue.arrivalsOf uid)).1) ∧
    r.field "group_size" = some (.int cfg.expectedGroupSize)
  plurality : (vote (s.queue.arrivalsOf uid)).1 ≠ "" →
    IsPlurality (nonBlank ((s.queue.arrivalsOf uid).map (·.extractedAnswer)))
      (vote (s.queue.arrivalsOf uid)).1

/-- No two rollouts share a future. -/
theorem Majority.futures_nodup {cfg : MajorityConfig} {s : Majority.State}
    (hi : Majority.Inv cfg s) :
    (s.queue.arrivals.map (·.item.future)).Nodup := by
  rw [hi.numbered]
  exact List.nodup_range

theorem Majority.wholeGroup {cfg : MajorityConfig} {hash : String → ℤ} {t₀ : ℚ}
    {s : Majority.State} {uid : String}
    (h : (Majority.machine cfg hash t₀).Reachable s)
    (hin : WithinDelay (Majority.policy cfg) s.queue uid)
    (hsize : (s.queue.arrivalsOf uid).length = cfg.expectedGroupSize) :
    Majority.WholeGroup cfg s uid := by
  have hr := Majority.queue_reachable h
  have hq := Batching.reachable_inv hr
  have hi := Majority.reachable_inv h
  have hwhole := whole_group hr hin hsize
  have hcalled := whole_group_flushed hr hin hsize
  exact {
    oneCall := hwhole
    called := hcalled
    answered := by
      intro hp it hit hnot
      have hb : (⟨uid, s.queue.arrivalsOf uid⟩ : Batch String PendingItem) ∈
          s.queue.batchesOf uid := by
        rw [hcalled hp]
        exact List.mem_singleton_self _
      obtain ⟨o, ho⟩ :=
        isDone_iff.mp (hi.answered _ (mem_batchesOf.mp hb).1 it hit)
      cases o with
      | result r => exact ⟨r, ho⟩
      | cancelled => exact absurd ho hnot
    label := by
      intro it hit r hr
      obtain ⟨b, hb, it', hit', hf, rfl⟩ := hi.origin it.future r hr
      have hkey : b.key = uid :=
        (batch_of_tag hq (Majority.futures_nodup hi) hit hb hit' hf).1
      rw [itemResult, items_eq_of_whole hwhole hb hkey, hsize]
      exact ⟨rfl, rfl⟩
    plurality := by
      intro hne
      rw [vote_eq] at hne ⊢
      exact winner_isPlurality hne }

/-! ## The Teacher manager -/

/-- The group of `uid` is finalised in one call, and every result a member of it
gets is a zero result or carries the penalty against the whole group. -/
structure Teacher.WholeGroup (env : Teacher.Env) (s : Teacher.State)
    (uid : String) : Prop where
  oneCall : s.queue.batchesOf uid = [] ∨
    s.queue.batchesOf uid = [⟨uid, s.queue.arrivalsOf uid⟩]
  called : (∀ c ∈ s.queue.pending, c.key ≠ uid) →
    s.queue.batchesOf uid = [⟨uid, s.queue.arrivalsOf uid⟩]
  penalty : ∀ i it, (s.queue.arrivalsOf uid)[i]? = some it → ∀ r,
    (it.future, .result r) ∈ s.futures →
    (∃ formatOk error, r = zero uid it formatOk error) ∨
    ∃ score rolloutN pseudoTarget, r = scored env.ratio env.cfg uid
      (s.queue.arrivalsOf uid) i it score rolloutN pseudoTarget

theorem Teacher.futures_nodup {env : Teacher.Env} {s : Teacher.State}
    (hi : Teacher.Inv env s) : (s.queue.arrivals.map (·.item.future)).Nodup := by
  rw [hi.numbered]
  exact List.nodup_range

theorem Teacher.items_nodup {env : Teacher.Env} {s : Teacher.State}
    (hi : Teacher.Inv env s) : (s.queue.arrivals.map (·.item)).Nodup := by
  have hnd := Teacher.futures_nodup hi
  have hmap : ((s.queue.arrivals.map (·.item)).map (·.future)).Nodup := by
    rw [List.map_map]
    exact hnd
  exact hmap.of_map

theorem Teacher.wholeGroup {env : Teacher.Env} {t₀ : ℚ} {s : Teacher.State}
    {uid : String} (h : (Teacher.machine env t₀).Reachable s)
    (hin : WithinDelay (Teacher.policy env.cfg) s.queue uid)
    (hsize : (s.queue.arrivalsOf uid).length = env.cfg.expectedGroupSize) :
    Teacher.WholeGroup env s uid := by
  have hr := Teacher.queue_reachable h
  have hq := Batching.reachable_inv hr
  have hi := Teacher.reachable_inv h
  have hwhole := whole_group hr hin hsize
  exact {
    oneCall := hwhole
    called := whole_group_flushed hr hin hsize
    penalty := by
      intro i it hit r hfr
      obtain ⟨b, hb, reply, hmem⟩ := hi.origin it.future r hfr
      obtain ⟨j, it', hit', hf, hres⟩ := mem_finalizeTeacherGroup hmem
      obtain ⟨hkey, rfl⟩ := batch_of_tag hq (Teacher.futures_nodup hi)
        (List.mem_of_getElem? hit) hb (List.mem_of_getElem? hit') hf
      rw [items_eq_of_whole hwhole hb hkey] at hit' hres
      rw [hkey] at hres
      -- the items of a group are distinct, so the positions agree too
      have hij : i = j := by
        have hlt := (List.getElem?_eq_some_iff.mp hit).1
        have hnd := arrivalsOf_nodup (Teacher.items_nodup hi) uid
        exact (List.getElem?_inj hlt hnd).mp (hit.trans hit'.symm)
      rw [hij]
      rcases hres with ⟨exc, hzero⟩ | hzero | hscored
      · exact Or.inl ⟨_, _, hzero⟩
      · exact Or.inl ⟨_, _, hzero⟩
      · exact Or.inr hscored }

/-! ## The theorem and its limits -/

/-- **Group integrity.** In both managers a group of exactly the expected size
whose rollouts are registered within the wait time is finalised whole, in any
run. -/
theorem group_integrity (cfg : MajorityConfig) (hash : String → ℤ)
    (env : Teacher.Env) (t₀ : ℚ) (uid : String) :
    (∀ s, (Majority.machine cfg hash t₀).Reachable s →
      WithinDelay (Majority.policy cfg) s.queue uid →
      (s.queue.arrivalsOf uid).length = cfg.expectedGroupSize →
      Majority.WholeGroup cfg s uid) ∧
    (∀ s, (Teacher.machine env t₀).Reachable s →
      WithinDelay (Teacher.policy env.cfg) s.queue uid →
      (s.queue.arrivalsOf uid).length = env.cfg.expectedGroupSize →
      Teacher.WholeGroup env s uid) := by
  constructor
  · intro s h hin hsize
    exact Majority.wholeGroup h hin hsize
  · intro s h hin hsize
    exact Teacher.wholeGroup h hin hsize

/-- Two rollouts of one uid, the second within the wait time of the first. -/
def exampleGroupRun : List Majority.Event :=
  [.runSingle "u" "\\boxed{1}", .clock (1 / 20), .runSingle "u" "\\boxed{2}",
   .callback ⟨"u", 1 / 20⟩]

def exampleTeacherRun : List Teacher.Event :=
  [.runSingle "u" "<question>1 + 1 = ?</question>" "2 + 2 = ?",
   .clock (1 / 20), .runSingle "u" "no question" "2 + 2 = ?",
   .callback ⟨"u", 1 / 20⟩]

theorem group_integrity_exampleGroupRun :
    (∃ s, (Majority.machine Majority.exampleConfig (fun _ => 0) 0).Reachable s ∧
      s.queue.batchesOf "u" ≠ [] ∧
      Majority.WholeGroup Majority.exampleConfig s "u") ∧
    (∃ s, (Teacher.machine Teacher.exampleEnv 0).Reachable s ∧
      s.queue.batchesOf "u" ≠ [] ∧ Teacher.WholeGroup Teacher.exampleEnv s "u") := by
  constructor
  · obtain ⟨s, hr, hp⟩ := Machine.exists_reachable_of_run
      (M := Majority.machine Majority.exampleConfig (fun _ => 0) 0)
      (p := fun s => s.queue.batchesOf "u" ≠ [] ∧
        WithinDelay (Majority.policy Majority.exampleConfig) s.queue "u" ∧
        (s.queue.arrivalsOf "u").length = 2)
      exampleGroupRun (by decide +kernel)
    obtain ⟨hne, hin, hsize⟩ := of_decide_eq_true hp
    exact ⟨s, hr, hne, (group_integrity _ _ Teacher.exampleEnv 0 "u").1 s hr hin
      hsize⟩
  · obtain ⟨s, hr, hp⟩ := Machine.exists_reachable_of_run
      (M := Teacher.machine Teacher.exampleEnv 0)
      (p := fun s => s.queue.batchesOf "u" ≠ [] ∧
        WithinDelay (Teacher.policy Teacher.exampleEnv.cfg) s.queue "u" ∧
        (s.queue.arrivalsOf "u").length = 2)
      exampleTeacherRun (by decide +kernel)
    obtain ⟨hne, hin, hsize⟩ := of_decide_eq_true hp
    exact ⟨s, hr, hne, (group_integrity Majority.exampleConfig (fun _ => 0) _ 0
      "u").2 s hr hin hsize⟩

/-- The wait timer goes off between the two rollouts of a group of two. -/
def exampleSplitRun : List Majority.Event :=
  [.runSingle "u" "\\boxed{1}", .clock (1 / 5), .callback ⟨"u", 2 / 25⟩,
   .runSingle "u" "\\boxed{2}", .clock (2 / 5), .callback ⟨"u", 7 / 25⟩]

/-- A wait of 80 ms cuts a group in two whose rollouts are 200 ms apart, far
below the result timeout; each half wins its own vote. -/
theorem group_split_exampleSplitRun :
    ∃ s, (Majority.machine Majority.exampleConfig (fun _ => 0) 0).Reachable s ∧
      (s.queue.arrivalsOf "u").length =
        Majority.exampleConfig.expectedGroupSize ∧
      (∀ a ∈ s.queue.arrivals, ∀ b ∈ s.queue.arrivals,
        b.time < a.time + Majority.exampleConfig.resultTimeoutS) ∧
      s.queue.batchesOf "u" = [⟨"u", [⟨"1", 0⟩]⟩, ⟨"u", [⟨"2", 1⟩]⟩] ∧
      s.queue.pending = [] := by
  obtain ⟨s, hr, hp⟩ := Machine.exists_reachable_of_run
    (M := Majority.machine Majority.exampleConfig (fun _ => 0) 0)
    (p := fun s => (s.queue.arrivalsOf "u").length =
        Majority.exampleConfig.expectedGroupSize ∧
      (∀ a ∈ s.queue.arrivals, ∀ b ∈ s.queue.arrivals,
        b.time < a.time + Majority.exampleConfig.resultTimeoutS) ∧
      s.queue.batchesOf "u" = [⟨"u", [⟨"1", 0⟩]⟩, ⟨"u", [⟨"2", 1⟩]⟩] ∧
      s.queue.pending = [])
    exampleSplitRun (by decide +kernel)
  exact ⟨s, hr, of_decide_eq_true hp⟩

end TTSR.Reward
