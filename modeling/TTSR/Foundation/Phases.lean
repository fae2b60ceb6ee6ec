import Mathlib.Data.List.Basic
import Mathlib.Data.List.Flatten
import Mathlib.Data.List.Perm.Basic
import Mathlib.Tactic.SplitIfs

/-!
# Phases of parallel threads

A program is a list of phases and a phase is a list of threads, each a list of
actions. The threads of a phase are interleaved in any order, and a barrier ends
the phase when all of them are done. What a program has done at any moment is
read off from what is still `pending`:

- `Interleaves.keeps`: what every action keeps holds at any moment.
- `Interleaves.promise`: what an action brings about and no later action undoes
  for good holds once the action is not pending any more.
- `Interleaves.append_cases`: one program after another.
- `exists_interleaves_nil`: every program can be carried out.
-/

namespace TTSR.Foundation.Phases

abbrev Program (α : Type*) := List (List (List α))

inductive Event where
  | thread (i : ℕ)
  | barrier
deriving DecidableEq

section Programs

variable {α : Type*}

/-- The action that an event does, if it does one, and what is left. -/
def step : Program α → Event → Option (Option α × Program α)
  | [], _ => none
  | threads :: phases, .thread i =>
      match threads[i]? with
      | some (x :: rest) => some (some x, threads.set i rest :: phases)
      | _ => none
  | threads :: phases, .barrier =>
      if threads.all (·.isEmpty) then some (none, phases) else none

/-- The actions that are still to be done. -/
def pending (p : Program α) : List α := p.flatten.flatten

@[simp] theorem pending_nil : pending ([] : Program α) = [] := rfl

@[simp] theorem pending_cons (threads : List (List α)) (p : Program α) :
    pending (threads :: p) = threads.flatten ++ pending p := by
  simp [pending]

@[simp] theorem pending_append (p q : Program α) :
    pending (p ++ q) = pending p ++ pending q := by
  simp [pending]

/-- An event does the head of one thread, or drops a phase that is done. -/
theorem step_cases {p p' : Program α} {e : Event} {x : Option α}
    (h : step p e = some (x, p')) :
    (∃ y before rest after phases, x = some y ∧
      p = (before ++ (y :: rest) :: after) :: phases ∧
      p' = (before ++ rest :: after) :: phases) ∨
    (x = none ∧ ∃ threads, p = threads :: p' ∧ ∀ t ∈ threads, t = []) := by
  cases p with
  | nil => cases h
  | cons threads phases =>
      cases e with
      | thread i =>
          rw [step] at h
          split at h
          · next y rest hthread =>
              obtain ⟨rfl, rfl⟩ := Prod.mk.inj (Option.some.inj h)
              obtain ⟨hi, hget⟩ := List.getElem?_eq_some_iff.mp hthread
              refine .inl ⟨y, threads.take i, rest, threads.drop (i + 1), phases,
                rfl, ?_, ?_⟩
              · rw [← hget, List.getElem_cons_drop, List.take_append_drop]
              · rw [List.set_eq_take_append_cons_drop, if_pos hi]
          · cases h
      | barrier =>
          rw [step] at h
          split_ifs at h with hdone
          obtain ⟨rfl, rfl⟩ := Prod.mk.inj (Option.some.inj h)
          refine .inr ⟨rfl, threads, rfl, fun t ht => ?_⟩
          exact List.isEmpty_iff.mp (List.all_eq_true.mp hdone t ht)

/-- A single thread does its actions in order. -/
theorem step_single {t : List α} {p' : Program α} {e : Event} {x : Option α}
    (h : step [[t]] e = some (x, p')) :
    (∃ y rest, t = y :: rest ∧ x = some y ∧ p' = [[rest]]) ∨
      (t = [] ∧ x = none ∧ p' = []) := by
  rcases step_cases h with ⟨y, before, rest, after, phases, rfl, hp, rfl⟩ |
    ⟨rfl, threads, hp, hdone⟩
  · obtain ⟨hthreads, rfl⟩ := List.cons.inj hp
    rcases List.singleton_eq_append_iff.mp hthreads with ⟨rfl, hsingle⟩ | ⟨-, hnil⟩
    · obtain ⟨rfl, rfl⟩ := List.cons.inj hsingle
      exact .inl ⟨y, rest, rfl, rfl, rfl⟩
    · cases hnil
  · obtain ⟨rfl, rfl⟩ := List.cons.inj hp
    exact .inr ⟨hdone t (List.mem_singleton_self t), rfl, rfl⟩

theorem pending_step {p p' : Program α} {e : Event} {x : Option α}
    (h : step p e = some (x, p')) :
    (pending p).Perm (x.toList ++ pending p') := by
  rcases step_cases h with ⟨y, before, rest, after, phases, rfl, rfl, rfl⟩ |
    ⟨rfl, threads, rfl, hdone⟩
  · simp only [pending_cons, List.flatten_append, List.flatten_cons,
      List.cons_append, List.append_assoc, Option.toList_some, List.nil_append]
    exact List.perm_middle
  · have hnil : threads.flatten = [] := List.flatten_eq_nil_iff.mpr hdone
    rw [pending_cons, hnil]
    exact List.Perm.refl _

theorem step_append {p q r : Program α} {e : Event} {x : Option α}
    (h : step (p ++ q) e = some (x, r)) :
    (∃ p', step p e = some (x, p') ∧ r = p' ++ q) ∨
      (p = [] ∧ step q e = some (x, r)) := by
  cases p with
  | nil => exact .inr ⟨rfl, h⟩
  | cons threads phases =>
      left
      cases e with
      | thread i =>
          rw [List.cons_append, step] at h
          split at h
          · next y rest hthread =>
              obtain ⟨rfl, rfl⟩ := Prod.mk.inj (Option.some.inj h)
              exact ⟨threads.set i rest :: phases, by rw [step, hthread], rfl⟩
          · cases h
      | barrier =>
          rw [List.cons_append, step] at h
          split_ifs at h with hdone
          obtain ⟨rfl, rfl⟩ := Prod.mk.inj (Option.some.inj h)
          exact ⟨phases, by rw [step, if_pos hdone], rfl⟩

theorem step_append_left {p p' : Program α} {e : Event} {x : Option α}
    (h : step p e = some (x, p')) (q : Program α) :
    step (p ++ q) e = some (x, p' ++ q) := by
  cases p with
  | nil => cases h
  | cons threads phases =>
      cases e with
      | thread i =>
          rw [step] at h
          rw [List.cons_append, step]
          split at h
          · next y rest hthread =>
              obtain ⟨rfl, rfl⟩ := Prod.mk.inj (Option.some.inj h)
              rfl
          · cases h
      | barrier =>
          rw [step] at h
          split_ifs at h with hdone
          obtain ⟨rfl, rfl⟩ := Prod.mk.inj (Option.some.inj h)
          rw [List.cons_append, step, if_pos hdone]

/-! ## Actions that are followed by another one -/

/-- In the thread each `y` is followed by an `x`. -/
def FollowedIn (x y : α) (t : List α) : Prop :=
  ∀ before after, t = before ++ y :: after → x ∈ after

def Followed (x y : α) (p : Program α) : Prop :=
  ∀ threads ∈ p, ∀ t ∈ threads, FollowedIn x y t

theorem followedIn_of_notMem {x y : α} {t : List α} (h : y ∉ t) :
    FollowedIn x y t := by
  rintro before after rfl
  exact absurd (List.mem_append_right _ List.mem_cons_self) h

theorem FollowedIn.append {x y : α} {t t' : List α} (ht : FollowedIn x y t)
    (ht' : FollowedIn x y t') : FollowedIn x y (t ++ t') := by
  intro before after h
  rcases List.append_eq_append_iff.mp h with ⟨mid, -, hmid⟩ | ⟨mid, hmid, hrest⟩
  · exact ht' mid after hmid
  · cases mid with
    | nil => exact ht' [] after hrest.symm
    | cons z mid =>
        obtain ⟨rfl, rfl⟩ := List.cons.inj hrest
        exact List.mem_append_left _ (ht before mid hmid)

theorem Followed.step {x y : α} {p p' : Program α} {e : Event} {z : Option α}
    (hxy : Followed x y p) (h : step p e = some (z, p')) :
    Followed x y p' ∧ (z = some y → x ∈ pending p') := by
  rcases step_cases h with ⟨w, before, rest, after, phases, rfl, rfl, rfl⟩ |
    ⟨rfl, threads, rfl, hdone⟩
  · have hhead := hxy _ List.mem_cons_self
    constructor
    · intro threads hthreads t ht pre post htsplit
      rcases List.mem_cons.mp hthreads with rfl | htail
      · rcases List.mem_append.mp ht with hbefore | hafter
        · exact hhead t (List.mem_append_left _ hbefore) pre post htsplit
        · rcases List.mem_cons.mp hafter with rfl | hafter
          · refine hhead (w :: t) ?_ (w :: pre) post (by rw [htsplit]; rfl)
            exact List.mem_append_right _ List.mem_cons_self
          · exact hhead t (List.mem_append_right _ (List.mem_cons_of_mem _ hafter))
              pre post htsplit
      · exact hxy threads (List.mem_cons_of_mem _ htail) t ht pre post htsplit
    · intro hwy
      obtain rfl := Option.some.inj hwy
      have hmem := hhead (w :: rest) (List.mem_append_right _ List.mem_cons_self)
        [] rest rfl
      rw [pending_cons]
      refine List.mem_append_left _ (List.mem_flatten.mpr ⟨rest, ?_, hmem⟩)
      exact List.mem_append_right _ List.mem_cons_self
  · exact ⟨fun t ht => hxy t (List.mem_cons_of_mem _ ht), nofun⟩

end Programs

/-! ## Interleaved runs -/

section Runs

variable {α σ : Type*} {act : α → σ → σ} {p q r : Program α} {s t u : σ}

/-- The state after the action of an event. -/
def perform (act : α → σ → σ) : Option α → σ → σ
  | none, s => s
  | some x, s => act x s

/-- From `p` in `s` the program can come to `q` in `t`. -/
inductive Interleaves (act : α → σ → σ) (p : Program α) (s : σ) :
    Program α → σ → Prop where
  | refl : Interleaves act p s p s
  | step {q q' : Program α} {t : σ} {e : Event} {x : Option α} :
      Interleaves act p s q t → step q e = some (x, q') →
        Interleaves act p s q' (perform act x t)

theorem Interleaves.trans (h : Interleaves act p s q t)
    (h' : Interleaves act q t r u) : Interleaves act p s r u := by
  induction h' with
  | refl => exact h
  | step _ hstep ih => exact ih.step hstep

theorem Interleaves.pending_subset (h : Interleaves act p s q t) :
    pending q ⊆ pending p := by
  induction h with
  | refl => exact List.Subset.refl _
  | step _ hstep ih =>
      intro x hx
      exact ih ((pending_step hstep).mem_iff.mpr (List.mem_append_right _ hx))

/-- **Frame rule.** What every action of the program keeps is kept at any
moment. -/
theorem Interleaves.keeps {I : σ → Prop} (h : Interleaves act p s q t)
    (hact : ∀ x ∈ pending p, ∀ s, I s → I (act x s)) (hs : I s) : I t := by
  induction h with
  | refl => exact hs
  | @step q q' t e x hrun hstep ih =>
      cases x with
      | none => exact ih
      | some x =>
          refine hact x (hrun.pending_subset ?_) _ ih
          exact (pending_step hstep).mem_iff.mpr List.mem_cons_self

theorem Interleaves.followed {x y : α} (h : Interleaves act p s q t)
    (hxy : Followed x y p) : Followed x y q := by
  induction h with
  | refl => exact hxy
  | step _ hstep ih => exact (ih.step hstep).1

/-- **Promise rule.** If `x` brings about `G`, and every action keeps `G` or is
followed by `x`, then `G` holds once `x` is not pending any more. -/
theorem Interleaves.promise {G : σ → Prop} {x : α} (h : Interleaves act p s q t)
    (hx : ∀ s, G (act x s))
    (hact : ∀ y ∈ pending p, (∀ s, G s → G (act y s)) ∨ Followed x y p)
    (hs : G s ∨ x ∈ pending p) : G t ∨ x ∈ pending q := by
  induction h with
  | refl => exact hs
  | @step q q' t e z hrun hstep ih =>
      have hperm := pending_step hstep
      cases z with
      | none => exact ih.imp_right fun hmem => hperm.mem_iff.mp hmem
      | some y =>
          have hy : y ∈ pending p :=
            hrun.pending_subset (hperm.mem_iff.mpr List.mem_cons_self)
          rcases ih with hG | hmem
          · rcases hact y hy with hkeep | hfollow
            · exact .inl (hkeep t hG)
            · exact .inr (((hrun.followed hfollow).step hstep).2 rfl)
          · rcases List.mem_cons.mp (hperm.mem_iff.mp hmem) with rfl | hrest
            · exact .inl (hx t)
            · exact .inr hrest

/-- **Sequence rule.** One program after another is in the first, or the first
is done. -/
theorem Interleaves.append_cases (h : Interleaves act (p ++ q) s r t) :
    (∃ p', Interleaves act p s p' t ∧ r = p' ++ q) ∨
      ∃ u, Interleaves act p s [] u ∧ Interleaves act q u r t := by
  induction h with
  | refl => exact .inl ⟨p, .refl, rfl⟩
  | step _ hstep ih =>
      rcases ih with ⟨p', hp', rfl⟩ | ⟨u, hp, hq⟩
      · rcases step_append hstep with ⟨p'', hp'', rfl⟩ | ⟨rfl, hstep⟩
        · exact .inl ⟨p'', hp'.step hp'', rfl⟩
        · exact .inr ⟨_, hp', Interleaves.refl.step hstep⟩
      · exact .inr ⟨u, hp, hq.step hstep⟩

theorem Interleaves.append_left (h : Interleaves act p s q t) (r : Program α) :
    Interleaves act (p ++ r) s (q ++ r) t := by
  induction h with
  | refl => exact .refl
  | step _ hstep ih => exact ih.step (step_append_left hstep r)

/-- **Progress.** Every program can be carried out. -/
theorem exists_interleaves_nil (act : α → σ → σ) (p : Program α) (s : σ) :
    ∃ t, Interleaves act p s [] t := by
  induction p generalizing s with
  | nil => exact ⟨s, .refl⟩
  | cons threads phases ih =>
      -- one action less in the first phase, or the barrier
      induction hn : threads.flatten.length generalizing threads s with
      | zero =>
          have hdone : threads.all (·.isEmpty) = true := by
            rw [List.all_eq_true]
            intro t ht
            have hnil := List.flatten_eq_nil_iff.mp (List.length_eq_zero_iff.mp hn)
            rw [hnil t ht]
            rfl
          obtain ⟨t, ht⟩ := ih s
          have hbarrier : step (threads :: phases) .barrier =
              some (none, phases) := if_pos hdone
          exact ⟨t, (Interleaves.refl.step hbarrier).trans ht⟩
      | succ n ihn =>
          obtain ⟨thread, hthread, hne⟩ : ∃ t ∈ threads, t ≠ [] := by
            by_contra hnone
            push Not at hnone
            rw [List.flatten_eq_nil_iff.mpr hnone] at hn
            cases hn
          obtain ⟨i, hi, hget⟩ := List.getElem_of_mem hthread
          obtain ⟨x, rest, rfl⟩ := List.exists_cons_of_ne_nil hne
          have hstep : step (threads :: phases) (.thread i) =
              some (some x, threads.set i rest :: phases) := by
            rw [step, List.getElem?_eq_some_iff.mpr ⟨hi, hget⟩]
          have hperm := pending_step hstep
          have hlength : (threads.set i rest).flatten.length = n := by
            have := hperm.length_eq
            simp only [pending_cons, Option.toList_some, List.length_append,
              List.length_singleton] at this
            omega
          obtain ⟨t, ht⟩ := ihn (threads.set i rest) (act x s) hlength
          exact ⟨t, (Interleaves.refl.step hstep).trans ht⟩

end Runs

end TTSR.Foundation.Phases
