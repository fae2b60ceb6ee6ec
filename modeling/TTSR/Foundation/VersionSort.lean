import Mathlib.Data.List.Sort
import Mathlib.Data.Nat.Notation
import Mathlib.Data.Ordering.Basic

/-!
# Version sort

The order of `sort -V`: a line is cut into parts that are not digits and parts
that are, the first are compared as texts (letters before other characters, and
`~` before everything, the end of the text included), the second as numbers. A
missing part counts as an empty text or as zero. Lines of the same version are
compared as they are. File suffixes and leading dots, for which the tool has
rules of their own, are not treated.

`versionLE_numbered`: lines that differ in a number at their end are ordered by
that number.
-/

namespace TTSR.Foundation.VersionSort

/-- The place of a character of a text part; the end of the part has place
zero. -/
def weight (c : Char) : ℤ :=
  if c.isAlpha then c.toNat
  else if c = '~' then -1
  else c.toNat + 256

/-- The parts of a line, each text with the number behind it. `text` and
`number` are the part being read, a number only from its first digit on. -/
def partsFrom (text : List ℤ) : Option ℕ → List Char → List (List ℤ × ℕ)
  | number, [] => [(text, number.getD 0)]
  | none, c :: cs =>
      if c.isDigit then partsFrom text (some (Nat.ofDigitChars 10 [c] 0)) cs
      else partsFrom (text ++ [weight c]) none cs
  | some n, c :: cs =>
      if c.isDigit then partsFrom text (some (Nat.ofDigitChars 10 [c] n)) cs
      else (text, n) :: partsFrom [weight c] none cs

def parts (line : String) : List (List ℤ × ℕ) := partsFrom [] none line.toList

section Padded

variable {α : Type*} (cmp : α → α → Ordering) (pad : α)

/-- A list against one that has run out. -/
def compareToEnd : List α → Ordering
  | [] => .eq
  | x :: xs => (cmp x pad).then (compareToEnd xs)

/-- The first difference decides; the shorter list goes on with `pad`. -/
def comparePadded : List α → List α → Ordering
  | [], ys => (compareToEnd cmp pad ys).swap
  | x :: xs, [] => compareToEnd cmp pad (x :: xs)
  | x :: xs, y :: ys => (cmp x y).then (comparePadded xs ys)

end Padded

/-- The texts first, then the numbers behind them. -/
def comparePart (p q : List ℤ × ℕ) : Ordering :=
  (comparePadded compare 0 p.1 q.1).then (compare p.2 q.2)

def compareLines (a b : String) : Ordering :=
  comparePadded comparePart ([], 0) (parts a) (parts b)

/-- `a` may stand before `b`. -/
def VersionLE (a b : String) : Prop :=
  compareLines a b = .lt ∨ compareLines a b = .eq ∧ a ≤ b

instance (a b : String) : Decidable (VersionLE a b) :=
  inferInstanceAs (Decidable (_ ∨ _ ∧ _))

/-- `sort -V`. -/
def versionSort (lines : List String) : List String :=
  lines.insertionSort VersionLE

example : versionSort ["step_10", "step_9", "step_100"] =
    ["step_9", "step_10", "step_100"] := by decide +kernel

/-! ## A number at the end -/

theorem partsFrom_digits {text : List ℤ} : ∀ {ds : List Char} {n : ℕ},
    (∀ c ∈ ds, c.isDigit = true) →
    partsFrom text (some n) ds = [(text, Nat.ofDigitChars 10 ds n)]
  | [], n, _ => rfl
  | c :: ds, n, h => by
      rw [partsFrom, if_pos (h c List.mem_cons_self),
        partsFrom_digits fun d hd => h d (List.mem_cons_of_mem c hd),
        Nat.ofDigitChars_cons, Nat.ofDigitChars_cons, Nat.ofDigitChars_nil]

theorem partsFrom_none_digits {text : List ℤ} {ds : List Char} (hne : ds ≠ [])
    (h : ∀ c ∈ ds, c.isDigit = true) :
    partsFrom text none ds = [(text, Nat.ofDigitChars 10 ds 0)] := by
  cases ds with
  | nil => exact absurd rfl hne
  | cons c ds =>
      rw [partsFrom, if_pos (h c List.mem_cons_self),
        partsFrom_digits fun d hd => h d (List.mem_cons_of_mem c hd),
        Nat.ofDigitChars_cons, Nat.ofDigitChars_cons, Nat.ofDigitChars_nil]

/-- What stands before a number at the end is cut up without it. -/
theorem exists_partsFrom_append (pre : List Char) {c : Char}
    (hc : c.isDigit = false) : ∀ (text : List ℤ) (number : Option ℕ),
    ∃ ps last, ∀ ds : List Char, ds ≠ [] → (∀ d ∈ ds, d.isDigit = true) →
      partsFrom text number (pre ++ c :: ds) =
        ps ++ [(last, Nat.ofDigitChars 10 ds 0)] := by
  have hcond : ¬ c.isDigit = true := by simp [hc]
  induction pre with
  | nil =>
      intro text number
      cases number with
      | none =>
          refine ⟨[], text ++ [weight c], ?_⟩
          intro ds hne hds
          rw [List.nil_append, partsFrom, if_neg hcond]
          exact partsFrom_none_digits hne hds
      | some n =>
          refine ⟨[(text, n)], [weight c], ?_⟩
          intro ds hne hds
          rw [List.nil_append, partsFrom, if_neg hcond,
            partsFrom_none_digits hne hds]
          rfl
  | cons x pre ih =>
      intro text number
      by_cases hx : x.isDigit = true
      · cases number with
        | none =>
            obtain ⟨ps, last, h⟩ := ih text (some (Nat.ofDigitChars 10 [x] 0))
            refine ⟨ps, last, ?_⟩
            intro ds hne hds
            rw [List.cons_append, partsFrom, if_pos hx, h ds hne hds]
        | some n =>
            obtain ⟨ps, last, h⟩ := ih text (some (Nat.ofDigitChars 10 [x] n))
            refine ⟨ps, last, ?_⟩
            intro ds hne hds
            rw [List.cons_append, partsFrom, if_pos hx, h ds hne hds]
      · cases number with
        | none =>
            obtain ⟨ps, last, h⟩ := ih (text ++ [weight x]) none
            refine ⟨ps, last, ?_⟩
            intro ds hne hds
            rw [List.cons_append, partsFrom, if_neg hx, h ds hne hds]
        | some n =>
            obtain ⟨ps, last, h⟩ := ih [weight x] none
            refine ⟨(text, n) :: ps, last, ?_⟩
            intro ds hne hds
            rw [List.cons_append, partsFrom, if_neg hx, h ds hne hds]
            rfl

theorem comparePadded_self {α : Type*} {cmp : α → α → Ordering} {pad : α}
    (hcmp : ∀ x, cmp x x = .eq) : ∀ xs, comparePadded cmp pad xs xs = .eq
  | [] => rfl
  | x :: xs => by
      rw [comparePadded, hcmp, comparePadded_self hcmp xs]
      rfl

/-- Behind equal elements the last ones decide. -/
theorem comparePadded_append {α : Type*} {cmp : α → α → Ordering} {pad : α}
    (hcmp : ∀ x, cmp x x = .eq) (ps : List α) (a b : α) :
    comparePadded cmp pad (ps ++ [a]) (ps ++ [b]) = cmp a b := by
  induction ps with
  | nil =>
      show (cmp a b).then .eq = cmp a b
      cases cmp a b <;> rfl
  | cons p ps ih =>
      rw [List.cons_append, List.cons_append, comparePadded, hcmp, ih]
      rfl

theorem comparePart_self (p : List ℤ × ℕ) : comparePart p p = .eq := by
  have hcmp : ∀ x : ℤ, compare x x = .eq := fun x => compare_eq_iff_eq.mpr rfl
  rw [comparePart, comparePadded_self hcmp, compare_eq_iff_eq.mpr rfl]
  rfl

theorem comparePart_numbers (text : List ℤ) (m n : ℕ) :
    comparePart (text, m) (text, n) = compare m n := by
  have hcmp : ∀ x : ℤ, compare x x = .eq := fun x => compare_eq_iff_eq.mpr rfl
  rw [comparePart, comparePadded_self hcmp]
  rfl

/-- **Numbers at the end decide.** Lines that are equal up to a number behind a
character that is no digit are ordered by that number. -/
theorem versionLE_numbered (stem : String) {c : Char} (hc : c.isDigit = false)
    {j k : ℕ} :
    VersionLE (stem ++ String.singleton c ++ toString j)
        (stem ++ String.singleton c ++ toString k) ↔ j ≤ k := by
  obtain ⟨ps, last, hparts⟩ := exists_partsFrom_append stem.toList hc [] none
  have hline : ∀ n : ℕ, parts (stem ++ String.singleton c ++ toString n) =
      ps ++ [(last, n)] := by
    intro n
    have hdigits : ∀ d ∈ Nat.toDigits 10 n, d.isDigit = true := by
      intro d hd
      exact Nat.isDigit_of_mem_toDigits (by decide) (by decide) hd
    have hlist : (stem ++ String.singleton c ++ toString n).toList =
        stem.toList ++ c :: Nat.toDigits 10 n := by
      rw [String.toList_append, String.toList_append, List.append_assoc,
        Nat.toString_eq_repr, Nat.toList_repr]
      simp
    rw [parts, hlist, hparts _ Nat.toDigits_ne_nil hdigits,
      Nat.ofDigitChars_ten_toDigits]
  have hcompare : compareLines (stem ++ String.singleton c ++ toString j)
      (stem ++ String.singleton c ++ toString k) = compare j k := by
    rw [compareLines, hline, hline, comparePadded_append comparePart_self,
      comparePart_numbers]
  rw [VersionLE, hcompare]
  rcases Nat.lt_trichotomy j k with hlt | rfl | hgt
  · simp [Nat.compare_eq_lt.mpr hlt, Nat.le_of_lt hlt]
  · simp
  · simp [Nat.compare_eq_gt.mpr hgt, hgt]

end TTSR.Foundation.VersionSort
