import Mathlib.Data.List.DropRight
import Mathlib.Data.String.Basic

/-!
# Text operations of the host language

`strip`, `split`, `splitlines`, `find` and `re.findall`, on characters. White space and line
boundaries are the Unicode sets of the language, not the ASCII ones. A regular
expression enters as a matcher: given the text from some position on, the
captured group and the length of the match, if there is one at that position.
-/

namespace TTSR.Foundation.Text

/-- `str.isspace` on one character, which `strip` and `\s` share. -/
def isSpace (c : Char) : Bool :=
  let n := c.toNat
  (9 ≤ n && n ≤ 13) || (28 ≤ n && n ≤ 32) || n == 0x85 || n == 0xA0 ||
    n == 0x1680 || (0x2000 ≤ n && n ≤ 0x200A) || n == 0x2028 || n == 0x2029 ||
    n == 0x202F || n == 0x205F || n == 0x3000

/-- The characters `str.splitlines` breaks at. -/
def isLineBreak (c : Char) : Bool :=
  let n := c.toNat
  (10 ≤ n && n ≤ 13) || (28 ≤ n && n ≤ 30) || n == 0x85 || n == 0x2028 ||
    n == 0x2029

def stripChars (cs : List Char) : List Char :=
  (cs.dropWhile isSpace).rdropWhile isSpace

def strip (s : String) : String := String.ofList (stripChars s.toList)

/-- Lines with `cur` (reversed) already read of the first one. -/
def splitlinesFrom : List Char → List Char → List (List Char)
  | [], [] => []
  | cur, [] => [cur.reverse]
  | cur, '\r' :: '\n' :: cs => cur.reverse :: splitlinesFrom [] cs
  | cur, c :: cs =>
      if isLineBreak c then cur.reverse :: splitlinesFrom [] cs
      else splitlinesFrom (c :: cur) cs

def splitlines (cs : List Char) : List (List Char) := splitlinesFrom [] cs

/-- Words with `cur` (reversed) already read of the first one. -/
def splitFrom : List Char → List Char → List (List Char)
  | cur, [] => if cur = [] then [] else [cur.reverse]
  | cur, c :: cs =>
      if isSpace c then
        if cur = [] then splitFrom [] cs else cur.reverse :: splitFrom [] cs
      else splitFrom (c :: cur) cs

/-- `str.split()`. -/
def split (s : String) : List String :=
  (splitFrom [] s.toList).map String.ofList

/-- `str.find(c)`. -/
def find (c : Char) (cs : List Char) : Option ℕ := cs.findIdx? (· == c)

/-- `str.rfind(c)`. -/
def rfind (c : Char) (cs : List Char) : Option ℕ :=
  (find c cs.reverse).map (cs.length - 1 - ·)

/-- The text before the first occurrence of `pat`. -/
def beforeFirst (pat : List Char) : List Char → Option (List Char)
  | [] => if pat = [] then some [] else none
  | c :: cs =>
      if pat.isPrefixOf (c :: cs) then some []
      else (beforeFirst pat cs).map (c :: ·)

/-- The groups of the leftmost non-overlapping matches, the first `skip`
characters belonging to the previous match. Matches are nonempty. -/
def findallFrom {α : Type*} (m : List Char → Option (α × ℕ)) :
    ℕ → List Char → List α
  | _, [] => []
  | skip + 1, _ :: cs => findallFrom m skip cs
  | 0, c :: cs =>
      match m (c :: cs) with
      | some (a, len) => a :: findallFrom m (len - 1) cs
      | none => findallFrom m 0 cs

def findall {α : Type*} (m : List Char → Option (α × ℕ)) (cs : List Char) :
    List α := findallFrom m 0 cs

/-! ## Stripping -/

@[simp] theorem toList_strip (s : String) :
    (strip s).toList = stripChars s.toList := by
  simp [strip]

theorem dropWhile_rdropWhile_self {p : Char → Bool} {cs : List Char}
    (h : cs.dropWhile p = cs) :
    (cs.rdropWhile p).dropWhile p = cs.rdropWhile p := by
  rw [List.dropWhile_eq_self_iff] at h ⊢
  intro hpos
  -- the two lists have the same head, because the shorter one is a prefix
  have hprefix := List.rdropWhile_prefix p cs
  rw [List.IsPrefix.getElem hprefix hpos]
  exact h (lt_of_lt_of_le hpos hprefix.length_le)

theorem stripChars_idem (cs : List Char) :
    stripChars (stripChars cs) = stripChars cs := by
  unfold stripChars
  rw [dropWhile_rdropWhile_self (List.dropWhile_idempotent isSpace cs),
    List.rdropWhile_idempotent]

@[simp] theorem strip_strip (s : String) : strip (strip s) = strip s := by
  rw [← String.toList_inj, toList_strip, toList_strip, stripChars_idem]

theorem dropWhile_append_cons {pre rest : List Char} {x : Char}
    (hx : isSpace x = false) :
    (pre ++ x :: rest).dropWhile isSpace =
      pre.dropWhile isSpace ++ x :: rest := by
  rw [List.dropWhile_append]
  split
  · next h =>
      rw [List.isEmpty_iff.mp h]
      simp [hx]
  · rfl

theorem rdropWhile_append_cons {pre rest : List Char} {y : Char}
    (hy : isSpace y = false) :
    (pre ++ y :: rest).rdropWhile isSpace =
      pre ++ y :: rest.rdropWhile isSpace := by
  have hrev : (pre ++ y :: rest).reverse =
      rest.reverse ++ y :: pre.reverse := by simp
  rw [List.rdropWhile, hrev, dropWhile_append_cons hy]
  simp [List.rdropWhile]

/-- The outer blanks of a text go, and nothing between two characters that are
not blank. -/
theorem stripChars_append (pre mid post : List Char) {x y : Char}
    (hx : isSpace x = false) (hy : isSpace y = false) :
    stripChars (pre ++ x :: (mid ++ y :: post)) =
      pre.dropWhile isSpace ++ x :: (mid ++ y :: post.rdropWhile isSpace) := by
  rw [stripChars, dropWhile_append_cons hx]
  have happ : pre.dropWhile isSpace ++ x :: (mid ++ y :: post) =
      (pre.dropWhile isSpace ++ x :: mid) ++ y :: post := by simp
  rw [happ, rdropWhile_append_cons hy]
  simp

theorem mem_stripChars {x : Char} {cs : List Char} (hx : isSpace x = false) :
    x ∈ stripChars cs ↔ x ∈ cs := by
  constructor
  · intro h
    exact (List.dropWhile_suffix _).subset
      ((List.rdropWhile_prefix _ _).subset h)
  · intro h
    obtain ⟨pre, post, rfl⟩ := List.append_of_mem h
    rw [stripChars, dropWhile_append_cons hx, rdropWhile_append_cons hx]
    simp

/-- A stripped text starts with a character that is not blank. -/
theorem isSpace_head_of_stripped {x : Char} {cs : List Char}
    (h : stripChars (x :: cs) = x :: cs) : isSpace x = false := by
  by_contra hx
  have hshort : (stripChars (x :: cs)).length ≤ cs.length := by
    apply ((List.rdropWhile_prefix _ _).length_le).trans
    rw [List.dropWhile_cons_of_pos (by simpa using hx)]
    exact (List.dropWhile_suffix _).length_le
  rw [h, List.length_cons] at hshort
  exact absurd hshort (by omega)

/-- The first occurrence of a pattern is not after any other one. -/
theorem beforeFirst_append (pat pre rest : List Char) :
    ∃ before, beforeFirst pat (pre ++ (pat ++ rest)) = some before ∧
      before.length ≤ pre.length := by
  induction pre with
  | nil =>
      refine ⟨[], ?_, Nat.le_refl _⟩
      rw [List.nil_append]
      cases hcs : pat ++ rest with
      | nil =>
          rw [beforeFirst, if_pos (List.append_eq_nil_iff.mp hcs).1]
      | cons c cs =>
          rw [beforeFirst, ← hcs, if_pos]
          exact List.isPrefixOf_iff_prefix.mpr (List.prefix_append _ _)
  | cons c pre ih =>
      obtain ⟨before, hbefore, hlength⟩ := ih
      rw [List.cons_append, beforeFirst]
      split
      · exact ⟨[], rfl, Nat.zero_le _⟩
      · exact ⟨c :: before, by rw [hbefore]; rfl, Nat.succ_le_succ hlength⟩

/-! ## Searching -/

variable {α : Type*} {m : List Char → Option (α × ℕ)}

/-- Every group found is the group of a match somewhere in the text. -/
theorem exists_match_of_mem_findallFrom {a : α} : ∀ {skip : ℕ} {cs : List Char},
    a ∈ findallFrom m skip cs → ∃ q len, q <:+ cs ∧ m q = some (a, len) := by
  intro skip cs
  induction cs generalizing skip with
  | nil => intro h; cases skip <;> simp [findallFrom] at h
  | cons c cs ih =>
      intro h
      cases skip with
      | succ skip =>
          obtain ⟨q, len, hq, hm⟩ := ih h
          exact ⟨q, len, hq.trans (List.suffix_cons c cs), hm⟩
      | zero =>
          rw [findallFrom] at h
          split at h
          · next b len hb =>
              rcases List.mem_cons.mp h with rfl | h
              · exact ⟨_, len, List.suffix_refl _, hb⟩
              · obtain ⟨q, len, hq, hm⟩ := ih h
                exact ⟨q, len, hq.trans (List.suffix_cons c cs), hm⟩
          · obtain ⟨q, len, hq, hm⟩ := ih h
            exact ⟨q, len, hq.trans (List.suffix_cons c cs), hm⟩

/-- Where nothing matches, nothing is found. -/
theorem findallFrom_eq_nil {skip : ℕ} {cs : List Char}
    (h : ∀ q, q <:+ cs → m q = none) : findallFrom m skip cs = [] := by
  rw [List.eq_nil_iff_forall_not_mem]
  intro a ha
  obtain ⟨q, len, hq, hm⟩ := exists_match_of_mem_findallFrom ha
  rw [h q hq] at hm
  cases hm

/-- If no match that starts in `p` reaches beyond `p`, the search arrives at
what follows `p` with nothing to skip. -/
theorem findallFrom_append {rest : List Char} : ∀ {skip : ℕ} {p : List Char},
    (∀ q a len, q ≠ [] → q <:+ p → m (q ++ rest) = some (a, len) →
      len ≤ q.length) →
    skip ≤ p.length →
    ∃ found, findallFrom m skip (p ++ rest) = found ++ findallFrom m 0 rest := by
  intro skip p
  induction p generalizing skip with
  | nil =>
      intro _ hskip
      obtain rfl : skip = 0 := Nat.le_zero.mp hskip
      exact ⟨[], rfl⟩
  | cons c p ih =>
      intro hcut hskip
      have hcut' : ∀ q a len, q ≠ [] → q <:+ p → m (q ++ rest) = some (a, len) →
          len ≤ q.length := fun q a len hne hq =>
        hcut q a len hne (hq.trans (List.suffix_cons c p))
      cases skip with
      | succ skip => exact ih hcut' (Nat.le_of_succ_le_succ hskip)
      | zero =>
          rw [List.cons_append, findallFrom]
          split
          · next a len hm =>
              have hlen := hcut (c :: p) a len (List.cons_ne_nil _ _)
                (List.suffix_refl _) hm
              have hskip' : len - 1 ≤ p.length := by
                rw [List.length_cons] at hlen
                omega
              obtain ⟨found, hfound⟩ := ih hcut' hskip'
              exact ⟨a :: found, by rw [hfound]; rfl⟩
          · exact ih hcut' (Nat.zero_le _)

/-- The characters of a match are skipped. -/
theorem findallFrom_skip (m : List Char → Option (α × ℕ))
    (used rest : List Char) :
    findallFrom m used.length (used ++ rest) = findallFrom m 0 rest := by
  induction used with
  | nil => rfl
  | cons c used ih => exact ih

/-! ## Numerals -/

theorem toString_nat_inj {m n : ℕ} : toString m = toString n ↔ m = n := by
  constructor
  · intro h
    have hdigits : Nat.toDigits 10 m = Nat.toDigits 10 n := by
      rw [← Nat.toList_repr, ← Nat.toList_repr]
      exact congrArg String.toList h
    rw [← Nat.ofDigitChars_ten_toDigits (n := m), hdigits,
      Nat.ofDigitChars_ten_toDigits]
  · rintro rfl
    rfl

end TTSR.Foundation.Text
