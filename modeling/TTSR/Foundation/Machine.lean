import Mathlib.Data.List.Induction
import Mathlib.Data.Option.Basic
import Mathlib.Tactic.SplitIfs

/-!
# Partial step machines

A machine is an initial state and a partial step function: an event that is not
enabled in a state yields `none`. Everything a verification says about runs is
said through `ReachableIf`, the states of the runs each of whose steps meets a
side condition; `Reachable` is the unconditioned case.

- `ReachableIf.weaken`: replacing the side condition.
- `ReachableIf.invariant`: an inductive property holds along every such run.
- `reachable_of_run`: a list of events replayed by `run` gives a reachable state.
- `run_invariant`: a property of what has happened and of the state holds along
  every replay.
- `Reachable.simulate`: a state map that turns every step of one machine into
  at most one step of another carries reachable states to reachable states.
- `Reachable.component`: machines side by side reach what each reaches alone.
-/

namespace TTSR.Foundation

structure Machine (σ ε : Type*) where
  init : σ
  step : σ → ε → Option σ

namespace Machine

variable {σ ε τ δ : Type*} {M : Machine σ ε}

/-- The states of the runs whose every step meets `ok`. -/
inductive ReachableIf (M : Machine σ ε) (ok : σ → ε → Prop) : σ → Prop where
  | init : ReachableIf M ok M.init
  | step {s s' : σ} {e : ε} :
      ReachableIf M ok s → ok s e → M.step s e = some s' → ReachableIf M ok s'

abbrev Reachable (M : Machine σ ε) : σ → Prop :=
  M.ReachableIf fun _ _ => True

/-- **Weakening rule.** A side condition may be replaced by one that it implies
on the steps from reachable states. -/
theorem ReachableIf.weaken {ok ok' : σ → ε → Prop} {s : σ}
    (h : M.ReachableIf ok s)
    (hok : ∀ s e s', M.ReachableIf ok s → ok s e → M.step s e = some s' →
      ok' s e) : M.ReachableIf ok' s := by
  induction h with
  | init => exact .init
  | step hreach he hs ih => exact .step ih (hok _ _ _ hreach he hs) hs

/-- **Invariant rule.** A property of the initial state that every admissible
step from a reachable state preserves holds in every reachable state. -/
theorem ReachableIf.invariant {ok : σ → ε → Prop} {I : σ → Prop}
    (hinit : I M.init)
    (hstep : ∀ s e s', M.ReachableIf ok s → I s → ok s e →
      M.step s e = some s' → I s') :
    ∀ {s : σ}, M.ReachableIf ok s → I s := by
  intro s h
  induction h with
  | init => exact hinit
  | step hreach hok hs ih => exact hstep _ _ _ hreach ih hok hs

/-! ## Replaying a list of events -/

/-- Perform the events of a list in order; `none` if one is not enabled. -/
def run (M : Machine σ ε) : σ → List ε → Option σ
  | s, [] => some s
  | s, e :: es => (M.step s e).bind (M.run · es)

theorem reachable_of_run : ∀ {es : List ε} {s s' : σ},
    M.Reachable s → M.run s es = some s' → M.Reachable s'
  | [], s, s', hs, h => by
      cases h
      exact hs
  | e :: es, s, s', hs, h => by
      obtain ⟨t, hstep, hrun⟩ := Option.bind_eq_some_iff.mp h
      exact reachable_of_run (.step hs trivial hstep) hrun

theorem reachableIf_of_run {ok : σ → ε → Prop} {es : List ε} {s s' : σ}
    (hs : M.ReachableIf ok s) (hok : ∀ e ∈ es, ∀ t, ok t e)
    (h : M.run s es = some s') : M.ReachableIf ok s' := by
  induction es generalizing s with
  | nil =>
      cases h
      exact hs
  | cons e es ih =>
      obtain ⟨t, hstep, hrun⟩ := Option.bind_eq_some_iff.mp h
      exact ih (.step hs (hok e List.mem_cons_self s) hstep)
        (fun e' he' => hok e' (List.mem_cons_of_mem _ he')) hrun

theorem run_append (es es' : List ε) (s : σ) :
    M.run s (es ++ es') = (M.run s es).bind (M.run · es') := by
  induction es generalizing s with
  | nil => rfl
  | cons e es ih =>
      rw [List.cons_append, run, run, Option.bind_assoc]
      exact congrArg _ (funext ih)

/-- **History rule.** A property of the events so far and the state that holds
before the first event and that every step keeps holds after every replay. -/
theorem run_invariant {I : List ε → σ → Prop} (hinit : I [] M.init)
    (hstep : ∀ es s e s', M.run M.init es = some s → I es s →
      M.step s e = some s' → I (es ++ [e]) s') {es : List ε} {s : σ}
    (h : M.run M.init es = some s) : I es s := by
  induction es using List.reverseRecOn generalizing s with
  | nil =>
      cases h
      exact hinit
  | append_singleton es e ih =>
      rw [run_append] at h
      obtain ⟨t, hrun, hlast⟩ := Option.bind_eq_some_iff.mp h
      obtain ⟨s', hs, hnil⟩ := Option.bind_eq_some_iff.mp hlast
      cases hnil
      exact hstep es t e s hrun (ih hrun) hs

/-- A replay that ends in a state satisfying a test exhibits a reachable
state satisfying it. -/
theorem exists_reachable_of_run {p : σ → Bool} (es : List ε)
    (h : (M.run M.init es).map p = some true) :
    ∃ s, M.Reachable s ∧ p s = true := by
  obtain ⟨s, hrun, hp⟩ := Option.map_eq_some_iff.mp h
  exact ⟨s, reachable_of_run .init hrun, hp⟩

/-- Perform the events of a list in order, each if it meets `ok`. -/
def runIf (M : Machine σ ε) (ok : σ → ε → Prop) [∀ s e, Decidable (ok s e)] :
    σ → List ε → Option σ
  | s, [] => some s
  | s, e :: es => if ok s e then (M.step s e).bind (M.runIf ok · es) else none

theorem reachableIf_of_runIf {ok : σ → ε → Prop}
    [∀ s e, Decidable (ok s e)] {es : List ε} {s s' : σ}
    (hs : M.ReachableIf ok s) (h : M.runIf ok s es = some s') :
    M.ReachableIf ok s' := by
  induction es generalizing s with
  | nil =>
      cases h
      exact hs
  | cons e es ih =>
      rw [runIf] at h
      split_ifs at h with hok
      obtain ⟨t, hstep, hrun⟩ := Option.bind_eq_some_iff.mp h
      exact ih (.step hs hok hstep) hrun

/-- A replay under a side condition exhibits a state reachable under it. -/
theorem exists_reachableIf_of_runIf (ok : σ → ε → Prop)
    [∀ s e, Decidable (ok s e)] {p : σ → Bool} (es : List ε)
    (h : (M.runIf ok M.init es).map p = some true) :
    ∃ s, M.ReachableIf ok s ∧ p s = true := by
  obtain ⟨s, hrun, hp⟩ := Option.map_eq_some_iff.mp h
  exact ⟨s, reachableIf_of_runIf .init hrun, hp⟩

/-! ## Simulation -/

/-- **Simulation rule.** If every step of `M` is, under `f`, a step of `N` or
no step at all, then `f` maps reachable states to reachable states. -/
theorem Reachable.simulate {N : Machine τ δ} (f : σ → τ)
    (hinit : f M.init = N.init)
    (hstep : ∀ s e s', M.step s e = some s' →
      f s' = f s ∨ ∃ d, N.step (f s) d = some (f s')) :
    ∀ {s : σ}, M.Reachable s → N.Reachable (f s) := by
  intro s h
  induction h with
  | init => rw [hinit]; exact .init
  | step _ _ hs ih =>
      rcases hstep _ _ _ hs with heq | ⟨d, hd⟩
      · rw [heq]; exact ih
      · exact .step ih trivial hd

/-! ## Machines side by side -/

section Pool

variable {ι : Type*} [DecidableEq ι]

/-- Machines that share nothing; an event is one of one of them. -/
def pool (M : ι → Machine σ ε) : Machine (ι → σ) (ι × ε) where
  init := fun i => (M i).init
  step s e := ((M e.1).step (s e.1) e.2).map (Function.update s e.1)

/-- **Projection rule.** In a pool every machine is in a state that it reaches
alone. -/
theorem Reachable.component {M : ι → Machine σ ε} {s : ι → σ}
    (h : (pool M).Reachable s) (i : ι) : (M i).Reachable (s i) := by
  refine Reachable.simulate (N := M i) (· i) rfl ?_ h
  rintro s ⟨j, e⟩ s' hs
  obtain ⟨t, ht, rfl⟩ := Option.map_eq_some_iff.mp hs
  by_cases hij : i = j
  · subst hij
    rw [Function.update_self]
    exact Or.inr ⟨e, ht⟩
  · exact Or.inl (Function.update_of_ne hij _ _)

end Pool

end Machine

end TTSR.Foundation
