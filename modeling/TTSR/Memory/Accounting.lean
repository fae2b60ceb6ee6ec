import TTSR.Memory.Representation

/-!
# What one update does to the memory

An update has two halves. The loop lands every reflection that names a weakness
on one entry: on an entry that is there already, which only counts it, or on a
new one behind all others. So an entry keeps its place in the list until the
loop is over, and its place identifies it. Pruning then drops expired entries,
ranks the others and cuts the list, and changes none of them.

`update_accounts` puts the two together for any memory and any similarity.
-/

namespace TTSR.Memory

open TTSR.Foundation TTSR.Foundation.Text TTSR.Foundation.Merging

/-! ## The loop -/

/-- A candidate is counted on one entry, or appended. -/
inductive Lands (t : ℤ) (c : WeaknessEntry) :
    List WeaknessEntry → List WeaknessEntry → Prop
  | merged (pre : List WeaknessEntry) (e : WeaknessEntry)
      (post : List WeaknessEntry) :
      Lands t c (pre ++ e :: post) (pre ++ e.seen t :: post)
  | appended (entries : List WeaknessEntry) :
      Lands t c entries (entries ++ [c])

/-- Candidates land one after the other. -/
inductive LandsAll (t : ℤ) :
    List WeaknessEntry → List WeaknessEntry → List WeaknessEntry → Prop
  | nil (entries : List WeaknessEntry) : LandsAll t [] entries entries
  | cons {c : WeaknessEntry} {cs entries mid merged : List WeaknessEntry} :
      Lands t c entries mid → LandsAll t cs mid merged →
      LandsAll t (c :: cs) entries merged

/-- What may have become of an entry while the reflections of iteration `t` were
being merged: it has been counted at `t`, or is as it was. -/
structure Counted (t : ℤ) (e e' : WeaknessEntry) : Prop where
  text : e'.reasoningWeakness = e.reasoningWeakness
  triggers : e'.triggerConditions = e.triggerConditions
  signature : e'.failureSignature = e.failureSignature
  summary : e'.localizationSummary = e.localizationSummary
  firstSeen : e'.firstSeen = e.firstSeen
  persistence : e.persistence ≤ e'.persistence
  lastSeen : e'.lastSeen = t ∨
    e'.lastSeen = e.lastSeen ∧ e'.persistence = e.persistence

theorem Counted.refl (t : ℤ) (e : WeaknessEntry) : Counted t e e :=
  ⟨rfl, rfl, rfl, rfl, rfl, le_refl _, .inr ⟨rfl, rfl⟩⟩

theorem Counted.seen {t : ℤ} {e e' : WeaknessEntry} (h : Counted t e e') :
    Counted t e (e'.seen t) :=
  { h with
    persistence := le_trans h.persistence (Int.le_add_one (le_refl _))
    lastSeen := .inl rfl }

section Loop

variable {α : Type*} [LE α] [DecidableLE α]
  {py : Builtins} {cfg : MemoryConfig α} {sim : String → String → α} {t : ℤ}

theorem lands_mergeInto (entries : List WeaknessEntry) (c : WeaknessEntry) :
    Lands t c entries (mergeInto cfg sim t entries c) := by
  unfold mergeInto
  rcases absorb_cases (fun existing => reaches cfg sim c.reasoningWeakness
    existing.reasoningWeakness) (WeaknessEntry.seen t) c entries with
    ⟨pre, e, post, rfl, -, -, heq⟩ | ⟨-, heq⟩
  · rw [heq]
    exact .merged pre e post
  · rw [heq]
    exact .appended entries

theorem landsAll_foldl (cs entries : List WeaknessEntry) :
    LandsAll t cs entries (cs.foldl (mergeInto cfg sim t) entries) := by
  induction cs generalizing entries with
  | nil => exact .nil entries
  | cons c cs ih => exact .cons (lands_mergeInto entries c) (ih _)

theorem sum_persistence_mergeInto (entries : List WeaknessEntry)
    {c : WeaknessEntry} (hc : c.persistence = 1) :
    ((mergeInto cfg sim t entries c).map (·.persistence)).sum =
      (entries.map (·.persistence)).sum + 1 := by
  have hseen : ∀ e : WeaknessEntry,
      (e.seen t).persistence = e.persistence + 1 := fun _ => rfl
  exact sum_absorb hseen hc entries

/-- The loop counts every candidate once. -/
theorem sum_persistence_foldl {cs : List WeaknessEntry}
    (hcs : ∀ c ∈ cs, c.persistence = 1) (entries : List WeaknessEntry) :
    ((cs.foldl (mergeInto cfg sim t) entries).map (·.persistence)).sum =
      (entries.map (·.persistence)).sum + cs.length := by
  induction cs generalizing entries with
  | nil => simp
  | cons c cs ih =>
      have htail : ∀ c' ∈ cs, c'.persistence = 1 :=
        fun c' hc' => hcs c' (List.mem_cons_of_mem _ hc')
      rw [List.foldl_cons, ih htail,
        sum_persistence_mergeInto _ (hcs c List.mem_cons_self)]
      push_cast [List.length_cons]
      ring

theorem counted_mergeInto {entries : List WeaknessEntry} {c e e₀ : WeaknessEntry}
    {i : ℕ} (h : Counted t e₀ e) (he : entries[i]? = some e) :
    ∃ e', (mergeInto cfg sim t entries c)[i]? = some e' ∧ Counted t e₀ e' := by
  rw [mergeInto, getElem?_absorb, he]
  split_ifs
  · exact ⟨e.seen t, rfl, h.seen⟩
  · exact ⟨e, rfl, h⟩

/-- The loop leaves every entry at its place, and only counts it. -/
theorem counted_foldl {cs entries : List WeaknessEntry} {e e₀ : WeaknessEntry}
    {i : ℕ} (h : Counted t e₀ e) (he : entries[i]? = some e) :
    ∃ e', (cs.foldl (mergeInto cfg sim t) entries)[i]? = some e' ∧
      Counted t e₀ e' := by
  induction cs generalizing entries e with
  | nil => exact ⟨e, he, h⟩
  | cons c cs ih =>
      obtain ⟨e', he', h'⟩ : ∃ e', (mergeInto cfg sim t entries c)[i]? = some e' ∧
          Counted t e₀ e' := counted_mergeInto h he
      exact ih h' he'

end Loop

/-- The reflections of an update that name a weakness. -/
def naming (py : Builtins) (reflections : List (List (String × Json))) :
    List (List (String × Json)) :=
  reflections.filter fun item => textField py item "reasoning_weakness" ≠ ""

/-- The candidates of well-shaped reflections are made of those that name a
weakness. -/
theorem forall₂_candidates {py : Builtins} {t : ℤ}
    {reflections : List (List (String × Json))}
    (hshape : ∀ item ∈ reflections, WellShaped item) :
    List.Forall₂ (fun item c => fromReflection py item t = .ok c)
      (naming py reflections) (candidates py t reflections) := by
  induction reflections with
  | nil => exact .nil
  | cons item reflections ih =>
      have htail : ∀ item' ∈ reflections, WellShaped item' :=
        fun item' h => hshape item' (List.mem_cons_of_mem _ h)
      obtain ⟨c, hc⟩ := (fromReflection_ok_iff py item t).mpr
        (hshape item List.mem_cons_self)
      have hrest := ih htail
      rw [candidates_cons hc, reasoningWeakness_of_fromReflection hc]
      unfold naming at hrest ⊢
      rw [List.filter_cons]
      by_cases hblank : textField py item "reasoning_weakness" = ""
      · rw [if_neg (by simpa using hblank), if_pos hblank]
        exact hrest
      · rw [if_pos (by simpa using hblank), if_neg hblank]
        exact .cons hc hrest

/-! ## Pruning -/

/-- What pruning makes of the entries, each with its place: `kept` are those that
are still there, in their new order. -/
structure Pruned {α : Type*} (cfg : MemoryConfig α) (t : ℤ)
    (merged after : List WeaknessEntry) (kept : List (WeaknessEntry × ℕ)) :
    Prop where
  entries : after = kept.map Prod.fst
  once : (kept.map Prod.snd).Nodup
  unchanged : ∀ p ∈ kept, p ∈ merged.zipIdx
  dropped : ∀ p ∈ merged.zipIdx, p ∉ kept →
    cfg.resolveWindow < t - p.1.lastSeen ∨
      (kept.length : ℤ) = cfg.capacity ∧
        ∀ q ∈ kept, p.1.persistence ≤ q.1.persistence
  stable : kept.Pairwise fun p q =>
    p.1.persistence = q.1.persistence → p.2 < q.2

/-- `prune`, on entries with their places. -/
def prunePlaced {α : Type*} (cfg : MemoryConfig α) (t : ℤ)
    (placed : List (WeaknessEntry × ℕ)) : List (WeaknessEntry × ℕ) :=
  sliceTo cfg.capacity (rank (·.1.persistence)
    (placed.filter fun p => t - p.1.lastSeen ≤ cfg.resolveWindow))

section Prune

variable {α : Type*} {cfg : MemoryConfig α} {t : ℤ}

theorem map_fst_prunePlaced (placed : List (WeaknessEntry × ℕ)) :
    (prunePlaced cfg t placed).map Prod.fst =
      prune cfg t (placed.map Prod.fst) :=
  map_prune cfg t Prod.fst placed

theorem pruned_prune (hcap : 0 ≤ cfg.capacity) (merged : List WeaknessEntry) :
    Pruned cfg t merged (prune cfg t merged)
      (prunePlaced cfg t merged.zipIdx) := by
  have hplaces : merged.zipIdx.Pairwise fun p q => p.2 < q.2 := by
    have hrange : (merged.zipIdx.map Prod.snd).Pairwise (· < ·) := by
      rw [List.zipIdx_map_snd]
      exact List.pairwise_lt_range'
    exact List.pairwise_map.mp hrange
  have hrecent := hplaces.filter
    fun p => decide (t - p.1.lastSeen ≤ cfg.resolveWindow)
  have hsub : (prunePlaced cfg t merged.zipIdx).Sublist _ :=
    sliceTo_sublist _ _
  constructor
  case entries => rw [map_fst_prunePlaced, List.zipIdx_map_fst]
  case once =>
    refine (hsub.map Prod.snd).nodup (((rank_perm _ _).map _).nodup_iff.mpr ?_)
    exact (List.pairwise_map.mpr hrecent).imp ne_of_lt
  case unchanged =>
    intro p hp
    exact List.mem_of_mem_filter (mem_rank.mp (hsub.subset hp))
  case dropped =>
    intro p hp hgone
    by_cases hold : t - p.1.lastSeen ≤ cfg.resolveWindow
    · have hranked : p ∈ rank (fun q : WeaknessEntry × ℕ => q.1.persistence)
          (merged.zipIdx.filter fun q =>
            t - q.1.lastSeen ≤ cfg.resolveWindow) :=
        mem_rank.mpr (List.mem_filter.mpr ⟨hp, decide_eq_true hold⟩)
      exact .inr ((mem_sliceTo_or hcap (rank_sorted _ _) hranked).resolve_left
        hgone)
    · exact .inl (lt_of_not_ge hold)
  case stable => exact (rank_stable hrecent).sublist hsub

end Prune

/-! ## Both together -/

/-- **One update accounts for everything.** Before pruning, every reflection that
names a weakness has landed on exactly one entry, the total persistence has grown
by their number, and every entry that was there is at its place and at most
counted. What is missing afterwards has expired, or was cut off behind as many
entries of at least its persistence as the memory holds; and entries of one
persistence keep their order. -/
theorem update_accounts {α : Type*} [LE α] [DecidableLE α] (py : Builtins)
    (cfg : MemoryConfig α) (sim : String → String → α)
    (hcap : 0 ≤ cfg.capacity) (entries : List WeaknessEntry)
    (reflections : List (List (String × Json)))
    (hshape : ∀ item ∈ reflections, WellShaped item) (t : ℤ) :
    ∃ merged after kept,
      reflections.foldlM (mergeItem py cfg sim t) entries = .ok merged ∧
      update py cfg sim entries reflections t = .ok after ∧
      (∃ cs, List.Forall₂ (fun item c => fromReflection py item t = .ok c)
          (naming py reflections) cs ∧
        LandsAll t cs entries merged) ∧
      (merged.map (·.persistence)).sum =
        (entries.map (·.persistence)).sum + (naming py reflections).length ∧
      (∀ (i : ℕ) (e : WeaknessEntry), entries[i]? = some e →
        ∃ e', merged[i]? = some e' ∧ Counted t e e') ∧
      Pruned cfg t merged after kept := by
  have hcs : List.Forall₂ (fun item c => fromReflection py item t = .ok c)
      (naming py reflections) (candidates py t reflections) :=
    forall₂_candidates hshape
  refine ⟨_, _, _, foldlM_mergeItem hshape entries, update_eq_ok hshape entries,
    ⟨_, hcs, landsAll_foldl _ _⟩, ?_, ?_, pruned_prune hcap _⟩
  · rw [hcs.length_eq]
    exact sum_persistence_foldl (fun c hc => (mem_candidates hc).2.2.2.2) entries
  · intro i e he
    exact counted_foldl (Counted.refl t e) he

/-- Two reflections of one weakness, in an empty memory. -/
theorem update_accounts_exampleReflection :
    ∃ merged after : List WeaknessEntry, ∃ kept,
      update Builtins.plain defaultConfig exactMatch []
        [exampleReflection "drops a sign", exampleReflection "drops a sign"] 1 =
          .ok after ∧
      (merged.map (·.persistence)).sum = 2 ∧
      Pruned defaultConfig 1 merged after kept := by
  have hshape : ∀ item ∈ [exampleReflection "drops a sign",
      exampleReflection "drops a sign"], WellShaped item := by
    simp [exampleReflection, WellShaped, Dict.lookupEntries, Iterable]
  obtain ⟨merged, after, kept, -, hupdate, -, hsum, -, hpruned⟩ :=
    update_accounts Builtins.plain defaultConfig exactMatch (by decide) []
      _ hshape 1
  refine ⟨merged, after, kept, hupdate, ?_, hpruned⟩
  rw [hsum]
  decide +kernel

end TTSR.Memory
