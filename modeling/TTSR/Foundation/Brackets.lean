import Mathlib.Data.List.Infix
import Mathlib.Data.Nat.Notation

/-!
# Matching brackets

What a text holds between an opening bracket and the bracket that closes it,
whatever is nested in between, and what follows the last occurrence of a
pattern.
-/

namespace TTSR.Foundation.Brackets

variable {α : Type*} [DecidableEq α]

/-- A text without brackets. -/
def Flat (o c : α) (xs : List α) : Prop := ∀ x ∈ xs, x ≠ o ∧ x ≠ c

instance (o c : α) (xs : List α) : Decidable (Flat o c xs) :=
  inferInstanceAs (Decidable (∀ x ∈ xs, x ≠ o ∧ x ≠ c))

/-- The number of open brackets after `x`. -/
def depthAfter (o c x : α) (depth : ℕ) : ℕ :=
  if x = o then depth + 1 else if x = c then depth - 1 else depth

/-- The text before the bracket that closes the last of `depth + 1` open
ones. -/
def untilClosed (o c : α) : ℕ → List α → Option (List α)
  | _, [] => none
  | depth, x :: xs =>
      if x = c ∧ depth = 0 then some []
      else (untilClosed o c (depthAfter o c x depth) xs).map (x :: ·)

/-- The text after the last occurrence of `pat`. -/
def lastAfter (pat : List α) : List α → Option (List α)
  | [] => if pat = [] then some [] else none
  | x :: xs =>
      match lastAfter pat xs with
      | some rest => some rest
      | none =>
          if pat.isPrefixOf (x :: xs) then some ((x :: xs).drop pat.length)
          else none

/-! ## The matching bracket -/

/-- The closing bracket follows what is read up to it. -/
theorem untilClosed_eq_append {o c : α} {depth : ℕ} {xs body : List α}
    (h : untilClosed o c depth xs = some body) :
    ∃ post, xs = body ++ c :: post := by
  induction xs generalizing depth body with
  | nil => cases h
  | cons x xs ih =>
      rw [untilClosed] at h
      split at h
      · next hclose =>
          obtain rfl := Option.some.inj h
          exact ⟨xs, by rw [hclose.1]; rfl⟩
      · obtain ⟨inner, hinner, rfl⟩ := Option.map_eq_some_iff.mp h
        obtain ⟨post, rfl⟩ := ih hinner
        exact ⟨post, rfl⟩

/-- What follows the matching bracket does not matter. -/
theorem untilClosed_of_append {o c : α} {depth : ℕ} {body post : List α}
    (h : untilClosed o c depth (body ++ c :: post) = some body)
    (post' : List α) :
    untilClosed o c depth (body ++ c :: post') = some body := by
  induction body generalizing depth with
  | nil =>
      rw [List.nil_append, untilClosed] at h ⊢
      split at h
      · next hclose => rw [if_pos hclose]
      · obtain ⟨inner, -, hinner⟩ := Option.map_eq_some_iff.mp h
        cases hinner
  | cons x body ih =>
      rw [List.cons_append, untilClosed] at h ⊢
      split at h
      · cases h
      · next hopen =>
          obtain ⟨inner, hinner, heq⟩ := Option.map_eq_some_iff.mp h
          obtain rfl := (List.cons.inj heq).2
          rw [if_neg hopen, ih hinner]
          rfl

/-- Before the matching bracket there is no bracket at all, or an opening one
comes first. -/
theorem flat_or_open_first {o c : α} {xs body : List α}
    (h : untilClosed o c 0 xs = some body) :
    Flat o c body ∨ ∃ before rest, body = before ++ o :: rest ∧
      Flat o c before := by
  induction xs generalizing body with
  | nil => cases h
  | cons x xs ih =>
      rw [untilClosed] at h
      split at h
      · obtain rfl := Option.some.inj h
        exact .inl (by simp [Flat])
      · next hopen =>
          obtain ⟨inner, hinner, rfl⟩ := Option.map_eq_some_iff.mp h
          by_cases ho : x = o
          · exact .inr ⟨[], inner, by rw [ho]; rfl, by simp [Flat]⟩
          have hc : x ≠ c := fun hc => hopen ⟨hc, rfl⟩
          rw [depthAfter, if_neg ho, if_neg hc] at hinner
          rcases ih hinner with hflat | ⟨before, rest, rfl, hflat⟩
          · exact .inl (List.forall_mem_cons.mpr ⟨⟨ho, hc⟩, hflat⟩)
          · exact .inr ⟨x :: before, rest, rfl,
              List.forall_mem_cons.mpr ⟨⟨ho, hc⟩, hflat⟩⟩

omit [DecidableEq α] in
theorem flat_iff {o c : α} {xs : List α} :
    Flat o c xs ↔ o ∉ xs ∧ c ∉ xs := by
  constructor
  · intro h
    exact ⟨fun ho => (h o ho).1 rfl, fun hc => (h c hc).2 rfl⟩
  · rintro ⟨ho, hc⟩ x hx
    exact ⟨fun h => ho (h ▸ hx), fun h => hc (h ▸ hx)⟩

omit [DecidableEq α] in
/-- The first bracket of a text is one place and one bracket. -/
theorem Flat.first_bracket_unique {o c x y : α} {before after xs ys : List α}
    (hbefore : Flat o c before) (hafter : Flat o c after)
    (hx : x = o ∨ x = c) (hy : y = o ∨ y = c)
    (h : before ++ x :: xs = after ++ y :: ys) : before = after ∧ x = y := by
  induction before generalizing after with
  | nil =>
      cases after with
      | nil => exact ⟨rfl, (List.cons.inj h).1⟩
      | cons z after =>
          obtain ⟨hzo, hzc⟩ := hafter z (by simp)
          obtain rfl := (List.cons.inj h).1
          rcases hx with hx | hx
          · exact absurd hx hzo
          · exact absurd hx hzc
  | cons z before ih =>
      cases after with
      | nil =>
          obtain ⟨hzo, hzc⟩ := hbefore z (by simp)
          obtain rfl := (List.cons.inj h).1
          rcases hy with hy | hy
          · exact absurd hy hzo
          · exact absurd hy hzc
      | cons w after =>
          obtain ⟨rfl, htail⟩ := List.cons.inj h
          obtain ⟨rfl, hxy⟩ := ih (fun v hv => hbefore v (by simp [hv]))
            (fun v hv => hafter v (by simp [hv])) htail
          exact ⟨rfl, hxy⟩

/-! ## The last occurrence -/

theorem lastAfter_eq_none_iff {pat xs : List α} :
    lastAfter pat xs = none ↔ ∀ q, q <:+ xs → ¬ pat <+: q := by
  induction xs with
  | nil => simp [lastAfter, List.suffix_nil]
  | cons x xs ih =>
      rw [lastAfter]
      constructor
      · intro h q hq hp
        split at h
        · cases h
        · next hnone =>
            rcases List.suffix_cons_iff.mp hq with rfl | hq
            · rw [if_pos (List.isPrefixOf_iff_prefix.mpr hp)] at h
              cases h
            · exact ih.mp hnone q hq hp
      · intro h
        have hnone : lastAfter pat xs = none :=
          ih.mpr fun q hq => h q (hq.trans (List.suffix_cons x xs))
        have hhead : ¬ pat.isPrefixOf (x :: xs) := by
          rw [List.isPrefixOf_iff_prefix]
          exact h _ (List.suffix_refl _)
        rw [hnone]
        exact if_neg hhead

/-- The pattern stands before what follows it, and nowhere after its own first
character. -/
theorem lastAfter_eq_some {pat xs rest : List α} (hpat : pat ≠ [])
    (h : lastAfter pat xs = some rest) :
    ∃ pre, xs = pre ++ (pat ++ rest) ∧
      ∀ q, q <:+ (pat ++ rest).tail → ¬ pat <+: q := by
  induction xs with
  | nil => simp [lastAfter, hpat] at h
  | cons x xs ih =>
      rw [lastAfter] at h
      split at h
      · next rest' hrest =>
          obtain ⟨pre, hxs, hlast⟩ := ih (hrest.trans h)
          exact ⟨x :: pre, by rw [hxs]; rfl, hlast⟩
      · next hnone =>
          split at h
          · next hp =>
              obtain ⟨rest', hrest'⟩ := List.isPrefixOf_iff_prefix.mp hp
              obtain rfl : rest' = rest := by
                rw [← hrest', List.drop_left] at h
                exact Option.some.inj h
              refine ⟨[], hrest'.symm, ?_⟩
              rw [hrest']
              exact lastAfter_eq_none_iff.mp hnone
          · cases h

/-- What precedes the last occurrence does not matter. -/
theorem lastAfter_append {pat rest : List α} (hpat : pat ≠ [])
    (h : ∀ q, q <:+ (pat ++ rest).tail → ¬ pat <+: q) (pre : List α) :
    lastAfter pat (pre ++ (pat ++ rest)) = some rest := by
  induction pre with
  | nil =>
      obtain ⟨p, ps, rfl⟩ := List.exists_cons_of_ne_nil hpat
      have hnone : lastAfter (p :: ps) (ps ++ rest) = none :=
        lastAfter_eq_none_iff.mpr h
      have hhead : (p :: ps).isPrefixOf (p :: (ps ++ rest)) :=
        List.isPrefixOf_iff_prefix.mpr (List.prefix_append _ rest)
      show lastAfter (p :: ps) (p :: (ps ++ rest)) = some rest
      rw [lastAfter, hnone]
      dsimp only
      rw [if_pos hhead]
      exact congrArg some List.drop_left
  | cons x pre ih =>
      rw [List.cons_append, lastAfter, ih]

end TTSR.Foundation.Brackets
