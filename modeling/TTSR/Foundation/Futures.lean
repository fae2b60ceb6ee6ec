import Mathlib.Data.List.Nodup
import Mathlib.Data.List.Basic

/-!
# Futures

The completions of a family of futures, as the log of every completing call in
the order it was made. `setResult` and `cancel` are the guarded forms: they look
whether the future is done first. Under the guard no future is completed twice,
and a completion is never lost or replaced.
-/

namespace TTSR.Foundation.Futures

inductive Outcome (R : Type*) where
  | result (r : R)
  | cancelled
deriving DecidableEq

abbrev Log (R : Type*) := List (ℕ × Outcome R)

variable {R : Type*}

def isDone (l : Log R) (f : ℕ) : Bool := (l.map Prod.fst).contains f

/-- `if not future.done(): future.set_result(r)`. -/
def setResult (l : Log R) (f : ℕ) (r : R) : Log R :=
  if isDone l f then l else l ++ [(f, .result r)]

/-- Cancelling a future that is done has no effect. -/
def cancel (l : Log R) (f : ℕ) : Log R :=
  if isDone l f then l else l ++ [(f, .cancelled)]

/-- The guarded `set_result` over a list of futures and their results. -/
def setResults (l : Log R) : List (ℕ × R) → Log R
  | [] => l
  | (f, r) :: frs => setResults (setResult l f r) frs

theorem isDone_iff {l : Log R} {f : ℕ} :
    isDone l f = true ↔ ∃ o, (f, o) ∈ l := by
  simp [isDone]

theorem complete_once {l : Log R} {f : ℕ} {o : Outcome R}
    (hnd : (l.map Prod.fst).Nodup) :
    ((if isDone l f then l else l ++ [(f, o)]).map Prod.fst).Nodup := by
  split_ifs with hdone
  · exact hnd
  · rw [List.map_append, List.nodup_append]
    refine ⟨hnd, List.nodup_singleton _, ?_⟩
    rintro g hg g' hg' rfl
    simp only [List.map_cons, List.map_nil, List.mem_singleton] at hg'
    obtain ⟨⟨g₀, o'⟩, hmem, rfl⟩ := List.mem_map.mp hg
    exact hdone (isDone_iff.mpr ⟨o', hg' ▸ hmem⟩)

theorem setResult_once {l : Log R} (hnd : (l.map Prod.fst).Nodup) (f : ℕ)
    (r : R) : ((setResult l f r).map Prod.fst).Nodup := complete_once hnd

theorem cancel_once {l : Log R} (hnd : (l.map Prod.fst).Nodup) (f : ℕ) :
    ((cancel l f).map Prod.fst).Nodup := complete_once hnd

theorem setResults_once {frs : List (ℕ × R)} {l : Log R}
    (hnd : (l.map Prod.fst).Nodup) :
    ((setResults l frs).map Prod.fst).Nodup := by
  induction frs generalizing l with
  | nil => exact hnd
  | cons fr frs ih => exact ih (setResult_once hnd fr.1 fr.2)

theorem mem_setResult {l : Log R} {f g : ℕ} {r : R} {o : Outcome R} :
    (g, o) ∈ setResult l f r ↔
      (g, o) ∈ l ∨ (isDone l f = false ∧ g = f ∧ o = .result r) := by
  unfold setResult
  split_ifs with h
  · simp [h]
  · simp [h]

theorem mem_cancel {l : Log R} {f g : ℕ} {o : Outcome R} :
    (g, o) ∈ cancel l f ↔
      (g, o) ∈ l ∨ (isDone l f = false ∧ g = f ∧ o = .cancelled) := by
  unfold cancel
  split_ifs with h
  · simp [h]
  · simp [h]

/-- A cancellation makes no result. -/
@[simp] theorem mem_result_cancel {l : Log R} {f g : ℕ} {r : R} :
    (g, .result r) ∈ cancel l f ↔ (g, .result r) ∈ l := by
  simp [mem_cancel]

theorem isDone_cancel_of_isDone {l : Log R} {f g : ℕ}
    (h : isDone l g = true) : isDone (cancel l f) g = true := by
  obtain ⟨o, ho⟩ := isDone_iff.mp h
  exact isDone_iff.mpr ⟨o, mem_cancel.mpr (Or.inl ho)⟩

theorem isDone_setResult_self (l : Log R) (f : ℕ) (r : R) :
    isDone (setResult l f r) f = true := by
  by_cases h : isDone l f = true
  · obtain ⟨o, ho⟩ := isDone_iff.mp h
    exact isDone_iff.mpr ⟨o, mem_setResult.mpr (Or.inl ho)⟩
  · rw [Bool.not_eq_true] at h
    exact isDone_iff.mpr ⟨.result r, mem_setResult.mpr (Or.inr ⟨h, rfl, rfl⟩)⟩

theorem mem_setResults_of_mem {frs : List (ℕ × R)} {l : Log R} {g : ℕ}
    {o : Outcome R} (h : (g, o) ∈ l) : (g, o) ∈ setResults l frs := by
  induction frs generalizing l with
  | nil => exact h
  | cons fr frs ih => exact ih (mem_setResult.mpr (Or.inl h))

/-- A completion found after a list of guarded calls was there before, or is
the result of one of the calls, on a future that was not done. -/
theorem mem_setResults {frs : List (ℕ × R)} {l : Log R} {g : ℕ}
    {o : Outcome R} (h : (g, o) ∈ setResults l frs) :
    (g, o) ∈ l ∨ (isDone l g = false ∧ ∃ r, (g, r) ∈ frs ∧ o = .result r) := by
  induction frs generalizing l with
  | nil => exact Or.inl h
  | cons fr frs ih =>
      obtain ⟨f, r⟩ := fr
      rcases ih h with hmem | ⟨hnot, r', hr', rfl⟩
      · rcases mem_setResult.mp hmem with hold | ⟨hnot, rfl, rfl⟩
        · exact Or.inl hold
        · exact Or.inr ⟨hnot, r, List.mem_cons_self, rfl⟩
      · refine Or.inr ⟨?_, r', List.mem_cons_of_mem _ hr', rfl⟩
        rw [Bool.eq_false_iff] at hnot ⊢
        intro hdone
        obtain ⟨o, ho⟩ := isDone_iff.mp hdone
        exact hnot (isDone_iff.mpr ⟨o, mem_setResult.mpr (Or.inl ho)⟩)

theorem isDone_setResults {frs : List (ℕ × R)} {l : Log R} {g : ℕ}
    (h : isDone l g = true ∨ g ∈ frs.map Prod.fst) :
    isDone (setResults l frs) g = true := by
  induction frs generalizing l with
  | nil => exact h.resolve_right (by simp)
  | cons fr frs ih =>
      apply ih (l := setResult l fr.1 fr.2)
      rcases h with h | h
      · obtain ⟨o, ho⟩ := isDone_iff.mp h
        exact Or.inl (isDone_iff.mpr ⟨o, mem_setResult.mpr (Or.inl ho)⟩)
      · rw [List.map_cons, List.mem_cons] at h
        rcases h with rfl | h
        · exact Or.inl (isDone_setResult_self l _ _)
        · exact Or.inr h

/-- Among calls on distinct futures, the one on a future that is not done
completes it. -/
theorem mem_setResults_of_nodup {frs : List (ℕ × R)} {l : Log R} {f : ℕ} {r : R}
    (hnd : (frs.map Prod.fst).Nodup) (hmem : (f, r) ∈ frs)
    (hnot : isDone l f = false) : (f, .result r) ∈ setResults l frs := by
  induction frs generalizing l with
  | nil => cases hmem
  | cons fr frs ih =>
      obtain ⟨g, r'⟩ := fr
      rw [List.map_cons, List.nodup_cons] at hnd
      rcases List.mem_cons.mp hmem with heq | htail
      · obtain ⟨rfl, rfl⟩ := Prod.mk.inj heq
        show (f, .result r) ∈ setResults (setResult l f r) frs
        have hset : (f, .result r) ∈ setResult l f r :=
          mem_setResult.mpr (Or.inr ⟨hnot, rfl, rfl⟩)
        exact mem_setResults_of_mem hset
      · have hne : f ≠ g := fun h =>
          hnd.1 (List.mem_map.mpr ⟨(f, r), htail, h⟩)
        apply ih hnd.2 htail
        rw [Bool.eq_false_iff] at hnot ⊢
        intro hdone
        obtain ⟨o, ho⟩ := isDone_iff.mp hdone
        rcases mem_setResult.mp ho with hold | ⟨-, heq, -⟩
        · exact hnot (isDone_iff.mpr ⟨o, hold⟩)
        · exact hne heq

/-! ## What the waiters return

A waiter returns the result of its future, or gives up: then it cancels the
future and returns something of its own, which `late` describes. -/

section Waiters

variable {late : ℕ → R → Prop} {returned : List (ℕ × R)} {l : Log R}

theorem returned_of_late {f : ℕ} {r : R}
    (h : ∀ g q, (g, q) ∈ returned → (g, .result q) ∈ l ∨ late g q)
    (hlate : late f r) : ∀ g q, (g, q) ∈ returned ++ [(f, r)] →
      (g, .result q) ∈ cancel l f ∨ late g q := by
  intro g q hmem
  rw [List.mem_append, List.mem_singleton] at hmem
  rcases hmem with hold | hnew
  · exact (h g q hold).imp_left mem_result_cancel.mpr
  · obtain ⟨rfl, rfl⟩ := Prod.mk.inj hnew
    exact Or.inr hlate

theorem returned_of_result {f : ℕ} {r : R}
    (h : ∀ g q, (g, q) ∈ returned → (g, .result q) ∈ l ∨ late g q)
    (hresult : (f, .result r) ∈ l) : ∀ g q, (g, q) ∈ returned ++ [(f, r)] →
      (g, .result q) ∈ l ∨ late g q := by
  intro g q hmem
  rw [List.mem_append, List.mem_singleton] at hmem
  rcases hmem with hold | hnew
  · exact h g q hold
  · obtain ⟨rfl, rfl⟩ := Prod.mk.inj hnew
    exact Or.inl hresult

end Waiters

end TTSR.Foundation.Futures
