import Mathlib.Data.Int.Interval
import Mathlib.Data.Finset.Card
import TTSR.Memory.Representation

/-!
# What persistence counts

`strategy_note` tells the Student that a weakness was "seen N rounds", with the
persistence of its entry for N. The runs of this module carry, next to the
memory, the same entries with the iterations at which each of them was created
or matched. No step reads that record.

Persistence counts landings: one for every reflection that lands on the entry.
Two reflections of one round on one entry count twice, so it counts rounds
exactly as long as no update has two reflections that land on the same entry
(`persistence_counts_rounds`).
-/

namespace TTSR.Memory

open TTSR.Foundation TTSR.Foundation.Text TTSR.Foundation.Merging

/-- An entry with the iterations at which a reflection landed on it. -/
abbrev Tracked := WeaknessEntry × List ℤ

variable {α : Type*} [LE α] [DecidableLE α]

section Track

variable (py : Builtins) (cfg : MemoryConfig α) (sim : String → String → α)

def Tracked.seen (iteration : ℤ) (p : Tracked) : Tracked :=
  (p.1.seen iteration, p.2 ++ [iteration])

def trackInto (iteration : ℤ) (tracked : List Tracked) (p : Tracked) :
    List Tracked :=
  absorb (fun existing => reaches cfg sim p.1.reasoningWeakness
    existing.1.reasoningWeakness) (Tracked.seen iteration) p tracked

def trackedCandidates (u : Update) : List Tracked :=
  (candidates py u.iteration u.reflections).map fun c => (c, [u.iteration])

def trackPrune (iteration : ℤ) (tracked : List Tracked) : List Tracked :=
  sliceTo cfg.capacity (rank (·.1.persistence)
    (tracked.filter fun p => iteration - p.1.lastSeen ≤ cfg.resolveWindow))

def track (tracked : List Tracked) (u : Update) : List Tracked :=
  trackPrune cfg u.iteration ((trackedCandidates py u).foldl
    (trackInto cfg sim u.iteration) tracked)

end Track

/-- The memory and its record. -/
structure TrackedState where
  memory : State
  tracked : List Tracked

/-- The memory steps on its own; the record follows. -/
def trackedMachine (py : Builtins) (cfg : MemoryConfig α)
    (sim : String → String → α) : Machine TrackedState Update where
  init := ⟨⟨[], none⟩, []⟩
  step := fun s u => (step py cfg sim s.memory u).map fun memory =>
    ⟨memory, track py cfg sim s.tracked u⟩

/-! ## The condition -/

/-- Where the reflections of an update land, one after the other: the position
of the first similar entry, or the end of the list. -/
def landingsOf (py : Builtins) (cfg : MemoryConfig α)
    (sim : String → String → α) (entries : List WeaknessEntry) (u : Update) :
    List ℕ :=
  landings (reaches cfg sim) (entries.map (·.reasoningWeakness))
    ((candidates py u.iteration u.reflections).map (·.reasoningWeakness))

/-- The iteration number grows, and no two reflections of the update land on
the same entry. -/
def LandsApart (py : Builtins) (cfg : MemoryConfig α)
    (sim : String → String → α) (s : TrackedState) (u : Update) : Prop :=
  (∀ t ∈ s.memory.iteration, t < u.iteration) ∧
  (landingsOf py cfg sim s.memory.entries u).Nodup

instance (py : Builtins) (cfg : MemoryConfig α) (sim : String → String → α)
    (s : TrackedState) (u : Update) : Decidable (LandsApart py cfg sim s u) :=
  inferInstanceAs (Decidable ((∀ t ∈ s.memory.iteration, t < u.iteration) ∧
    (landingsOf py cfg sim s.memory.entries u).Nodup))

/-! ## The record follows the memory -/

section Record

variable {py : Builtins} {cfg : MemoryConfig α} {sim : String → String → α}

theorem map_fst_trackInto (t : ℤ) (tracked : List Tracked) (p : Tracked) :
    (trackInto cfg sim t tracked p).map Prod.fst =
      mergeInto cfg sim t (tracked.map Prod.fst) p.1 := by
  have hseen : ∀ q : Tracked, (q.seen t).1 = q.1.seen t := fun _ => rfl
  unfold trackInto mergeInto
  refine absorb_map Prod.fst ?_ hseen p tracked
  intro q
  rfl

theorem map_fst_foldl_trackInto (t : ℤ) (ps tracked : List Tracked) :
    (ps.foldl (trackInto cfg sim t) tracked).map Prod.fst =
      (ps.map Prod.fst).foldl (mergeInto cfg sim t) (tracked.map Prod.fst) := by
  induction ps generalizing tracked with
  | nil => rfl
  | cons p ps ih =>
      rw [List.foldl_cons, ih, map_fst_trackInto, List.map_cons, List.foldl_cons]

omit [LE α] [DecidableLE α] in
theorem map_fst_trackPrune (t : ℤ) (tracked : List Tracked) :
    (trackPrune cfg t tracked).map Prod.fst =
      prune cfg t (tracked.map Prod.fst) :=
  map_prune cfg t Prod.fst tracked

theorem map_fst_trackedCandidates (u : Update) :
    (trackedCandidates py u).map Prod.fst =
      candidates py u.iteration u.reflections := by
  simp [trackedCandidates, Function.comp_def]

theorem map_fst_track (tracked : List Tracked) (u : Update) :
    (track py cfg sim tracked u).map Prod.fst =
      prune cfg u.iteration ((candidates py u.iteration u.reflections).foldl
        (mergeInto cfg sim u.iteration) (tracked.map Prod.fst)) := by
  rw [track, map_fst_trackPrune, map_fst_foldl_trackInto,
    map_fst_trackedCandidates]

/-! ## One update -/

/-- What holds of a tracked entry while the reflections of iteration `t` are
being merged. -/
structure CountsLandings (t : ℤ) (p : Tracked) : Prop where
  counts : p.1.persistence = p.2.length
  within : ∀ i ∈ p.2, p.1.firstSeen ≤ i ∧ i ≤ p.1.lastSeen
  ordered : p.1.firstSeen ≤ p.1.lastSeen
  past : p.1.lastSeen ≤ t

/-- The same with a record without repetitions. -/
structure CountsRounds (t : ℤ) (p : Tracked) : Prop
    extends CountsLandings t p where
  increasing : p.2.Pairwise (· < ·)

theorem CountsLandings.mono {t t' : ℤ} {p : Tracked} (h : CountsLandings t p)
    (htt : t ≤ t') : CountsLandings t' p :=
  { h with past := le_trans h.past htt }

theorem CountsLandings.seen {t : ℤ} {p : Tracked} (h : CountsLandings t p) :
    CountsLandings t (p.seen t) where
  counts := by
    show p.1.persistence + 1 = ((p.2 ++ [t]).length : ℤ)
    rw [h.counts]
    simp
  within := by
    intro i hi
    show p.1.firstSeen ≤ i ∧ i ≤ t
    rcases List.mem_append.mp hi with hold | hnew
    · have hbounds := h.within i hold
      exact ⟨hbounds.1, le_trans hbounds.2 h.past⟩
    · rw [List.mem_singleton] at hnew
      subst hnew
      exact ⟨le_trans h.ordered h.past, le_refl _⟩
  ordered := le_trans h.ordered h.past
  past := le_refl t

theorem countsLandings_candidate {u : Update} {p : Tracked}
    (h : p ∈ trackedCandidates py u) :
    CountsLandings u.iteration p ∧ p.2 = [u.iteration] := by
  obtain ⟨c, hc, rfl⟩ := List.mem_map.mp h
  obtain ⟨-, -, hfirst, hlast, hone⟩ := mem_candidates hc
  refine ⟨⟨by simp [hone], ?_, by simp [hfirst, hlast], by simp [hlast]⟩, rfl⟩
  intro i hi
  obtain rfl : i = u.iteration := by simpa using hi
  exact ⟨by rw [hfirst], by rw [hlast]⟩

theorem countsLandings_foldl {t : ℤ} {ps tracked : List Tracked}
    (h : ∀ p ∈ tracked, CountsLandings t p)
    (hps : ∀ p ∈ ps, CountsLandings t p) :
    ∀ p ∈ ps.foldl (trackInto cfg sim t) tracked, CountsLandings t p := by
  induction ps generalizing tracked with
  | nil => exact h
  | cons p ps ih =>
      have hp : CountsLandings t p := hps p List.mem_cons_self
      have htail : ∀ q ∈ ps, CountsLandings t q :=
        fun q hq => hps q (List.mem_cons_of_mem _ hq)
      exact ih (forall_mem_absorb h (fun _ _ hq => hq.seen) hp) htail

/-- The record of an entry grows by one `t` for every landing on it. -/
theorem record_foldl {tracked : List Tracked} {u : Update} {j : ℕ} {p : Tracked}
    (hp : ((trackedCandidates py u).foldl (trackInto cfg sim u.iteration)
      tracked)[j]? = some p) :
    p.2 = (tracked[j]?.map Prod.snd).getD [] ++ List.replicate
      ((landingsOf py cfg sim (tracked.map Prod.fst) u).count j)
      u.iteration := by
  have hkey : ∀ q : Tracked, (q.seen u.iteration).1.reasoningWeakness =
      q.1.reasoningWeakness := fun _ => rfl
  have hseen : ∀ q : Tracked, (q.seen u.iteration).2 = q.2 ++ [u.iteration] :=
    fun _ => rfl
  have hnew : ∀ q ∈ trackedCandidates py u, q.2 = [u.iteration] :=
    fun q hq => (countsLandings_candidate hq).2
  have hgrow := record_foldl_absorb (fun q : Tracked => q.1.reasoningWeakness)
    Prod.snd (reaches cfg sim) hkey hseen hnew tracked j hp
  rw [hgrow, landingsOf, trackedCandidates, List.map_map, List.map_map]
  rfl

/-- An update whose reflections land apart adds at most one landing to each
record, at an iteration later than all others of it. -/
theorem increasing_foldl {tracked : List Tracked} {u : Update}
    (hinc : ∀ p ∈ tracked, p.2.Pairwise (· < ·))
    (hlater : ∀ p ∈ tracked, ∀ i ∈ p.2, i < u.iteration)
    (hapart : (landingsOf py cfg sim (tracked.map Prod.fst) u).Nodup) :
    ∀ p ∈ (trackedCandidates py u).foldl (trackInto cfg sim u.iteration) tracked,
      p.2.Pairwise (· < ·) := by
  intro p hp
  obtain ⟨j, hj⟩ := List.getElem?_of_mem hp
  rw [record_foldl hj]
  -- at most one landing is added to what was recorded before
  have hcount : (landingsOf py cfg sim (tracked.map Prod.fst) u).count j ≤ 1 :=
    List.nodup_iff_count_le_one.mp hapart j
  have hold : ∀ i ∈ (tracked[j]?.map Prod.snd).getD [], i < u.iteration := by
    intro i hi
    cases hget : tracked[j]? with
    | none => simp [hget] at hi
    | some q =>
        rw [hget] at hi
        exact hlater q (List.mem_of_getElem? hget) i hi
  have hinc' : ((tracked[j]?.map Prod.snd).getD []).Pairwise (· < ·) := by
    cases hget : tracked[j]? with
    | none => simp
    | some q => exact hinc q (List.mem_of_getElem? hget)
  rw [List.pairwise_append]
  refine ⟨hinc', ?_, ?_⟩
  · exact List.pairwise_replicate.mpr (Or.inl hcount)
  · intro i hi i' hi'
    rw [List.eq_of_mem_replicate hi']
    exact hold i hi

/-! ## Runs -/

/-- The memory, its record, and what the record says about the memory. -/
structure TrackedInv (s : TrackedState) : Prop where
  erased : s.memory.entries = s.tracked.map Prod.fst
  fresh : s.memory.iteration = none → s.tracked = []
  counted : ∀ t, s.memory.iteration = some t →
    ∀ p ∈ s.tracked, CountsRounds t p

/-- Every tracked entry counts its rounds, and all of them lie before the next
iteration. -/
theorem TrackedInv.before {s : TrackedState} (hi : TrackedInv s) {t : ℤ}
    (hlt : ∀ t' ∈ s.memory.iteration, t' < t) {p : Tracked}
    (hp : p ∈ s.tracked) : ∃ t' < t, CountsRounds t' p := by
  cases hit : s.memory.iteration with
  | none =>
      rw [hi.fresh hit] at hp
      cases hp
  | some t' => exact ⟨t', hlt t' hit, hi.counted t' hit p hp⟩

theorem trackedInv_step {s s' : TrackedState} {u : Update} (hi : TrackedInv s)
    (hok : LandsApart py cfg sim s u)
    (h : (trackedMachine py cfg sim).step s u = some s') : TrackedInv s' := by
  obtain ⟨memory, hstep, rfl⟩ := Option.map_eq_some_iff.mp h
  obtain ⟨-, -, rfl⟩ := step_cases hstep
  obtain ⟨hlt, hapart⟩ := hok
  rw [hi.erased] at hapart
  have hlandings : ∀ p ∈ s.tracked, CountsLandings u.iteration p := by
    intro p hp
    obtain ⟨t', ht', hcount⟩ := hi.before hlt hp
    exact hcount.toCountsLandings.mono (le_of_lt ht')
  have hinc : ∀ p ∈ s.tracked, p.2.Pairwise (· < ·) := by
    intro p hp
    obtain ⟨t', -, hcount⟩ := hi.before hlt hp
    exact hcount.increasing
  have hlater : ∀ p ∈ s.tracked, ∀ i ∈ p.2, i < u.iteration := by
    intro p hp i hip
    obtain ⟨t', ht', hcount⟩ := hi.before hlt hp
    exact lt_of_le_of_lt (le_trans (hcount.within i hip).2 hcount.past) ht'
  refine ⟨?_, ?_, ?_⟩
  · show prune cfg u.iteration _ = (track py cfg sim s.tracked u).map Prod.fst
    rw [map_fst_track, hi.erased]
  · intro hnone
    cases hnone
  · intro t ht p hp
    obtain rfl : u.iteration = t := Option.some.inj ht
    -- pruning removes entries and changes none
    have hmem : p ∈ (trackedCandidates py u).foldl
        (trackInto cfg sim u.iteration) s.tracked := by
      have hrank := (sliceTo_sublist _ _).subset hp
      rw [mem_rank] at hrank
      exact List.mem_of_mem_filter hrank
    exact ⟨countsLandings_foldl hlandings
      (fun q hq => (countsLandings_candidate hq).1) p hmem,
      increasing_foldl hinc hlater hapart p hmem⟩

/-- A record without repetitions has as many rounds as landings, and they all
lie between the first and the last. -/
theorem CountsRounds.rounds {t : ℤ} {p : Tracked} (h : CountsRounds t p) :
    p.1.persistence = p.2.toFinset.card ∧
    p.1.persistence ≤ p.1.lastSeen - p.1.firstSeen + 1 := by
  have hcard : p.2.toFinset.card = p.2.length :=
    List.toFinset_card_of_nodup (h.increasing.imp ne_of_lt)
  have hsub : p.2.toFinset ⊆ Finset.Icc p.1.firstSeen p.1.lastSeen := by
    intro i hi
    rw [List.mem_toFinset] at hi
    exact Finset.mem_Icc.mpr (h.within i hi)
  have hle := Finset.card_le_card hsub
  rw [Int.card_Icc, hcard] at hle
  have hordered := h.ordered
  rw [h.counts, hcard]
  refine ⟨rfl, ?_⟩
  omega

/-- **Persistence counts rounds** in every run with growing iteration numbers in
which no two reflections of an update land on the same entry. -/
theorem persistence_counts_rounds (py : Builtins) (cfg : MemoryConfig α)
    (sim : String → String → α) {s : TrackedState}
    (h : (trackedMachine py cfg sim).ReachableIf (LandsApart py cfg sim) s) :
    s.memory.entries = s.tracked.map Prod.fst ∧
    ∀ p ∈ s.tracked, p.1.persistence = p.2.toFinset.card ∧
      p.1.persistence ≤ p.1.lastSeen - p.1.firstSeen + 1 := by
  have hinit : TrackedInv (trackedMachine py cfg sim).init :=
    ⟨rfl, fun _ => rfl, by intro t ht; cases ht⟩
  have hi : TrackedInv s := Machine.ReachableIf.invariant (I := TrackedInv)
    hinit (fun _ _ _ _ hi hok hs => trackedInv_step hi hok hs) h
  refine ⟨hi.erased, fun p hp => ?_⟩
  cases hit : s.memory.iteration with
  | none =>
      rw [hi.fresh hit] at hp
      cases hp
  | some t => exact (hi.counted t hit p hp).rounds

end Record

theorem persistence_counts_rounds_exampleUpdates :
    ∃ s : TrackedState, s.memory.entries.map (·.persistence) = [2, 1] ∧
      ∀ p ∈ s.tracked, p.1.persistence = p.2.toFinset.card ∧
        p.1.persistence ≤ p.1.lastSeen - p.1.firstSeen + 1 := by
  obtain ⟨s, hr, hp⟩ := Machine.exists_reachableIf_of_runIf
    (M := trackedMachine Builtins.plain defaultConfig exactMatch)
    (LandsApart Builtins.plain defaultConfig exactMatch)
    (p := fun s => s.memory.entries.map (·.persistence) = [2, 1])
    exampleUpdates (by decide +kernel)
  exact ⟨s, of_decide_eq_true hp, (persistence_counts_rounds _ _ _ hr).2⟩

/-- One round, two reflections with the same weakness. -/
def exampleTwice : List Update :=
  [⟨[exampleReflection "drops a sign", exampleReflection "drops a sign"], 1⟩]

/-- A weakness reported twice in the first round is announced as seen in two
rounds. -/
theorem counted_twice_exampleTwice :
    ∃ s, (trackedMachine Builtins.plain defaultConfig exactMatch).Reachable s ∧
      s.tracked.map (fun p => (p.1.persistence, p.2.toFinset.card)) =
        [(2, 1)] ∧
      strategyNote 3 s.memory.entries =
        "1. drops a sign (trigger: long sums; seen 2 rounds)" := by
  obtain ⟨s, hr, hp⟩ := Machine.exists_reachable_of_run
    (M := trackedMachine Builtins.plain defaultConfig exactMatch)
    (p := fun s => s.tracked.map
        (fun p => (p.1.persistence, p.2.toFinset.card)) = [(2, 1)] ∧
      strategyNote 3 s.memory.entries =
        "1. drops a sign (trigger: long sums; seen 2 rounds)")
    exampleTwice (by decide +kernel)
  exact ⟨s, hr, of_decide_eq_true hp⟩

end TTSR.Memory
