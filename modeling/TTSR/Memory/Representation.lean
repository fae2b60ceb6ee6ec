import TTSR.Foundation.Machine
import TTSR.Memory.Weakness

/-!
# The representation invariant of the weakness memory

The memory as a machine whose events are the calls of `update`, with iteration
numbers that do not decrease. An update that raises an exception ends the
program, so it is not a step; `step_of_wellShaped` says that this never happens
to well-shaped reflections.

The delicate part of the invariant is that no two entries reach the threshold in
both directions. An entry is appended only if it reaches the threshold with none
of the entries before it; ranking forgets which of the two came first, so what
survives is the symmetric statement.
-/

namespace TTSR.Memory

open TTSR.Foundation TTSR.Foundation.Text TTSR.Foundation.Merging

/-- One call of `update`. -/
structure Update where
  reflections : List (List (String × Json))
  iteration : ℤ

structure State where
  entries : List WeaknessEntry
  /-- The iteration of the last update. -/
  iteration : Option ℤ

variable {α : Type*} [LE α] [DecidableLE α]

def step (py : Builtins) (cfg : MemoryConfig α) (sim : String → String → α)
    (s : State) (u : Update) : Option State :=
  if s.iteration.all (· ≤ u.iteration) then
    match update py cfg sim s.entries u.reflections u.iteration with
    | .ok entries => some ⟨entries, some u.iteration⟩
    | .error _ => none
  else none

def machine (py : Builtins) (cfg : MemoryConfig α)
    (sim : String → String → α) : Machine State Update :=
  ⟨⟨[], none⟩, step py cfg sim⟩

/-! ## The invariant -/

/-- An entry as it looks at iteration `t`. -/
structure WellFormed (t : ℤ) (e : WeaknessEntry) : Prop where
  named : e.reasoningWeakness ≠ ""
  stripped : strip e.reasoningWeakness = e.reasoningWeakness
  counted : 1 ≤ e.persistence
  ordered : e.firstSeen ≤ e.lastSeen
  past : e.lastSeen ≤ t

/-- The threshold is not reached in both directions. -/
def Apart (cfg : MemoryConfig α) (sim : String → String → α) (a b : String) :
    Prop :=
  ¬ (cfg.mergeThreshold ≤ sim a b ∧ cfg.mergeThreshold ≤ sim b a)

/-- What holds of the entries after an update at iteration `t`. -/
structure Represents (cfg : MemoryConfig α) (sim : String → String → α) (t : ℤ)
    (entries : List WeaknessEntry) : Prop where
  bounded : (entries.length : ℤ) ≤ cfg.capacity
  ranked : entries.Pairwise fun a b => b.persistence ≤ a.persistence
  wellFormed : ∀ e ∈ entries, WellFormed t e
  recent : ∀ e ∈ entries, t - e.lastSeen ≤ cfg.resolveWindow
  distinct : entries.Pairwise fun a b =>
    Apart cfg sim a.reasoningWeakness b.reasoningWeakness

/-- What holds of the entries while the reflections of iteration `t` are being
merged. -/
structure Sound (cfg : MemoryConfig α) (sim : String → String → α) (t : ℤ)
    (entries : List WeaknessEntry) : Prop where
  wellFormed : ∀ e ∈ entries, WellFormed t e
  distinct : (entries.map (·.reasoningWeakness)).Pairwise (Apart cfg sim)

theorem WellFormed.mono {t t' : ℤ} {e : WeaknessEntry} (h : WellFormed t e)
    (htt : t ≤ t') : WellFormed t' e :=
  { h with past := le_trans h.past htt }

theorem WellFormed.seen {t : ℤ} {e : WeaknessEntry} (h : WellFormed t e) :
    WellFormed t (e.seen t) where
  named := h.named
  stripped := h.stripped
  counted := le_trans h.counted (Int.le_add_one (le_refl _))
  ordered := le_trans h.ordered h.past
  past := le_refl t

theorem wellFormed_candidate {py : Builtins} {t : ℤ}
    {reflections : List (List (String × Json))} {c : WeaknessEntry}
    (h : c ∈ candidates py t reflections) : WellFormed t c := by
  obtain ⟨hnamed, hstrip, hfirst, hlast, hone⟩ := mem_candidates h
  exact ⟨hnamed, hstrip, by rw [hone], by rw [hfirst, hlast], by rw [hlast]⟩

section Invariant

variable {py : Builtins} {cfg : MemoryConfig α} {sim : String → String → α}

omit [DecidableLE α] in
theorem Apart.symm {a b : String} (h : Apart cfg sim a b) : Apart cfg sim b a :=
  fun hba => h ⟨hba.2, hba.1⟩

omit [DecidableLE α] in
theorem Sound.mono {t t' : ℤ} {entries : List WeaknessEntry}
    (h : Sound cfg sim t entries) (htt : t ≤ t') : Sound cfg sim t' entries where
  wellFormed := fun e he => (h.wellFormed e he).mono htt
  distinct := h.distinct

/-- A merge leaves the texts alone, or appends one. -/
theorem map_text_mergeInto (t : ℤ) (entries : List WeaknessEntry)
    (c : WeaknessEntry) :
    (mergeInto cfg sim t entries c).map (·.reasoningWeakness) =
      if entries.any fun e => reaches cfg sim c.reasoningWeakness
        e.reasoningWeakness
      then entries.map (·.reasoningWeakness)
      else entries.map (·.reasoningWeakness) ++ [c.reasoningWeakness] := by
  have hseen : ∀ e : WeaknessEntry,
      (e.seen t).reasoningWeakness = e.reasoningWeakness := fun _ => rfl
  exact map_key_absorb hseen c entries

/-- One merge keeps the entries sound. A candidate that is appended has reached
the threshold with no entry. -/
theorem sound_mergeInto {t : ℤ} {entries : List WeaknessEntry}
    {c : WeaknessEntry} (h : Sound cfg sim t entries) (hc : WellFormed t c) :
    Sound cfg sim t (mergeInto cfg sim t entries c) where
  wellFormed := forall_mem_absorb h.wellFormed (fun _ _ he => he.seen) hc
  distinct := by
    rw [map_text_mergeInto]
    split_ifs with hany
    · exact h.distinct
    · rw [List.pairwise_append]
      refine ⟨h.distinct, List.pairwise_singleton _ _, ?_⟩
      -- similar both ways, the candidate would have been merged
      intro a ha b hb hboth
      obtain ⟨e, he, rfl⟩ := List.mem_map.mp ha
      rw [List.mem_singleton] at hb
      subst hb
      have hreach : reaches cfg sim c.reasoningWeakness e.reasoningWeakness =
          true := decide_eq_true hboth.2
      exact hany (List.any_eq_true.mpr ⟨e, he, hreach⟩)

theorem sound_foldl {t : ℤ} {cs entries : List WeaknessEntry}
    (h : Sound cfg sim t entries) (hcs : ∀ c ∈ cs, WellFormed t c) :
    Sound cfg sim t (cs.foldl (mergeInto cfg sim t) entries) := by
  induction cs generalizing entries with
  | nil => exact h
  | cons c cs ih =>
      have hc : WellFormed t c := hcs c List.mem_cons_self
      have htail : ∀ c' ∈ cs, WellFormed t c' :=
        fun c' hc' => hcs c' (List.mem_cons_of_mem _ hc')
      exact ih (sound_mergeInto h hc) htail

omit [LE α] [DecidableLE α] in
theorem mem_prune {t : ℤ} {entries : List WeaknessEntry} {e : WeaknessEntry}
    (h : e ∈ prune cfg t entries) :
    e ∈ entries ∧ t - e.lastSeen ≤ cfg.resolveWindow := by
  have hrank := (sliceTo_sublist _ _).subset h
  rw [mem_rank, List.mem_filter, decide_eq_true_eq] at hrank
  exact hrank

omit [DecidableLE α] in
/-- Pruning turns sound entries into a represented memory. -/
theorem represents_prune {t : ℤ} {entries : List WeaknessEntry}
    (hcap : 0 ≤ cfg.capacity) (h : Sound cfg sim t entries) :
    Represents cfg sim t (prune cfg t entries) where
  bounded := length_sliceTo_le hcap _
  ranked := (rank_sorted _ _).sublist (sliceTo_sublist _ _)
  wellFormed := fun e he => h.wellFormed e (mem_prune he).1
  recent := fun e he => (mem_prune he).2
  distinct := by
    have hdistinct : entries.Pairwise fun a b =>
        Apart cfg sim a.reasoningWeakness b.reasoningWeakness :=
      List.pairwise_map.mp h.distinct
    have hfilter := hdistinct.filter
      fun x => decide (t - x.lastSeen ≤ cfg.resolveWindow)
    -- being apart is symmetric, so it does not matter how the entries are ranked
    have hrank := (rank_perm (·.persistence) _).symm.pairwise hfilter
      fun hab => hab.symm
    exact hrank.sublist (sliceTo_sublist _ _)

omit [DecidableLE α] in
theorem Represents.sound {t : ℤ} {entries : List WeaknessEntry}
    (h : Represents cfg sim t entries) : Sound cfg sim t entries where
  wellFormed := h.wellFormed
  distinct := List.pairwise_map.mpr h.distinct

/-! ## Runs -/

/-- Everything a step can do, guards included. -/
theorem step_cases {s s' : State} {u : Update}
    (h : step py cfg sim s u = some s') :
    (∀ t ∈ s.iteration, t ≤ u.iteration) ∧
    (∀ item ∈ u.reflections, WellShaped item) ∧
    s' = ⟨prune cfg u.iteration
      ((candidates py u.iteration u.reflections).foldl
        (mergeInto cfg sim u.iteration) s.entries), some u.iteration⟩ := by
  rw [step] at h
  split_ifs at h with hmono
  cases hup : update py cfg sim s.entries u.reflections u.iteration with
  | error exc => rw [hup] at h; cases h
  | ok entries =>
      have hshape := wellShaped_of_update hup
      rw [update_eq_ok hshape] at h
      refine ⟨?_, hshape, (Option.some.inj h).symm⟩
      intro t ht
      rw [Option.mem_def] at ht
      simpa [ht] using hmono

/-- Well-shaped reflections are never refused. -/
theorem step_of_wellShaped {s : State} {u : Update}
    (hmono : ∀ t ∈ s.iteration, t ≤ u.iteration)
    (hshape : ∀ item ∈ u.reflections, WellShaped item) :
    ∃ s', step py cfg sim s u = some s' := by
  have hall : s.iteration.all (· ≤ u.iteration) = true := by
    cases hit : s.iteration with
    | none => rfl
    | some t => simpa using hmono t hit
  rw [step, if_pos hall, update_eq_ok hshape]
  exact ⟨_, rfl⟩

/-- The memory between two updates. -/
def Inv (cfg : MemoryConfig α) (sim : String → String → α) (s : State) : Prop :=
  match s.iteration with
  | none => s.entries = []
  | some t => Represents cfg sim t s.entries

omit [DecidableLE α] in
theorem Inv.sound {s : State} (h : Inv cfg sim s) {t : ℤ}
    (hmono : ∀ t' ∈ s.iteration, t' ≤ t) : Sound cfg sim t s.entries := by
  unfold Inv at h
  cases hit : s.iteration with
  | none =>
      rw [hit] at h
      dsimp only at h
      rw [h]
      exact ⟨by simp, by simp⟩
  | some t' =>
      rw [hit] at h
      exact (Represents.sound h).mono (hmono t' hit)

theorem inv_step (hcap : 0 ≤ cfg.capacity) {s s' : State} {u : Update}
    (hi : Inv cfg sim s) (h : step py cfg sim s u = some s') :
    Inv cfg sim s' := by
  obtain ⟨hmono, -, rfl⟩ := step_cases h
  have hcs : ∀ c ∈ candidates py u.iteration u.reflections,
      WellFormed u.iteration c := fun c hc => wellFormed_candidate hc
  exact represents_prune hcap (sound_foldl (hi.sound hmono) hcs)

/-- **Representation invariant.** After every update of every run the memory is
bounded, ranked, recent and free of entries that are similar both ways, and
every next update of well-shaped reflections succeeds. -/
theorem memory_represents (py : Builtins) (sim : String → String → α)
    (hcap : 0 ≤ cfg.capacity) {s : State}
    (h : (machine py cfg sim).Reachable s) :
    (∀ t, s.iteration = some t → Represents cfg sim t s.entries) ∧
    ∀ u : Update, (∀ t ∈ s.iteration, t ≤ u.iteration) →
      (∀ item ∈ u.reflections, WellShaped item) →
      ∃ s', (machine py cfg sim).step s u = some s' := by
  have hinit : Inv cfg sim (machine py cfg sim).init := rfl
  have hi : Inv cfg sim s := Machine.ReachableIf.invariant (I := Inv cfg sim)
    hinit (fun _ _ _ _ hi _ hs => inv_step hcap hi hs) h
  refine ⟨?_, ?_⟩
  · intro t ht
    unfold Inv at hi
    rw [ht] at hi
    exact hi
  · intro u hmono hshape
    exact step_of_wellShaped hmono hshape

end Invariant

/-- A reflection that names a weakness. -/
def exampleReflection (weakness : String) : List (String × Json) :=
  [("reasoning_weakness", .str weakness),
   ("trigger_conditions", .arr [.str "long sums"])]

def exactMatch (a b : String) : ℚ := if a = b then 1 else 0

/-- Two weaknesses in round 1, one of them again in round 2. -/
def exampleUpdates : List Update :=
  [⟨[exampleReflection "guesses", exampleReflection "drops a sign"], 1⟩,
   ⟨[exampleReflection "drops a sign"], 2⟩]

theorem memory_represents_exampleUpdates :
    ∃ s : State, s.entries.map (·.persistence) = [2, 1] ∧
      Represents defaultConfig exactMatch 2 s.entries := by
  obtain ⟨s, hr, hp⟩ := Machine.exists_reachable_of_run
    (M := machine Builtins.plain defaultConfig exactMatch)
    (p := fun s => s.entries.map (·.persistence) = [2, 1] ∧
      s.iteration = some 2) exampleUpdates (by decide +kernel)
  obtain ⟨hpers, hiter⟩ := of_decide_eq_true hp
  exact ⟨s, hpers, (memory_represents Builtins.plain exactMatch (by decide)
    hr).1 2 hiter⟩

end TTSR.Memory
