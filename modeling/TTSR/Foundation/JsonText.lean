import TTSR.Foundation.TextFile
import TTSR.Foundation.Value

/-!
# The text of a JSON value

`json.dumps(x, ensure_ascii=False)`. In a string, quotes, backslashes and the
characters below U+0020 are escaped; every other character stands for itself,
the ones that `str.splitlines` would break at included. How a finite float is
written is left open, but for the characters it is written with.

The text of a value never leaves its line (`oneLine_dumps`).
-/

namespace TTSR.Foundation.JsonText

open TTSR.Foundation.TextFile

/-- A character of `float.__repr__` on a finite float. -/
def isFloatChar (c : Char) : Bool :=
  c.isDigit || c == '.' || c == 'e' || c == '+' || c == '-'

/-- `float.__repr__` on finite floats. -/
structure FloatRepr where
  repr : ℚ → List Char
  chars : ∀ q, ∀ c ∈ repr q, isFloatChar c = true

/-- The escapes of two characters. -/
def escapeDct : List (Char × Char) :=
  [('\\', '\\'), ('"', '"'), ('\x08', 'b'), ('\x0c', 'f'), ('\n', 'n'),
    ('\r', 'r'), ('\t', 't')]

def escapeChar (c : Char) : List Char :=
  match Dict.lookupEntries c escapeDct with
  | some e => ['\\', e]
  | none =>
      if c.toNat < 0x20 then
        ['\\', 'u', '0', '0', Nat.digitChar (c.toNat / 16),
          Nat.digitChar (c.toNat % 16)]
      else [c]

def dumpsStr (s : String) : List Char :=
  '"' :: (s.toList.flatMap escapeChar ++ ['"'])

def dumpsFloat (fr : FloatRepr) : PyFloat → List Char
  | .fin q => fr.repr q
  | .inf neg => (if neg then "-Infinity" else "Infinity").toList
  | .nan => "NaN".toList

/-- Items with their separators, in their brackets. -/
def bracketed (left right : Char) (items : List (List Char)) : List Char :=
  left :: ([',', ' '].intercalate items ++ [right])

mutual

def dumps (fr : FloatRepr) : Json → List Char
  | .null => "null".toList
  | .bool b => (if b then "true" else "false").toList
  | .int n => (toString n).toList
  | .float x => dumpsFloat fr x
  | .str s => dumpsStr s
  | .arr xs => bracketed '[' ']' (dumpsItems fr xs)
  | .obj fields => bracketed '{' '}' (dumpsFields fr fields)

def dumpsItems (fr : FloatRepr) : List Json → List (List Char)
  | [] => []
  | x :: xs => dumps fr x :: dumpsItems fr xs

def dumpsFields (fr : FloatRepr) : List (String × Json) → List (List Char)
  | [] => []
  | (key, x) :: fields =>
      (dumpsStr key ++ [':', ' '] ++ dumps fr x) :: dumpsFields fr fields

end

/-! ## One line -/

theorem oneLine_of_isFloatChar {cs : List Char}
    (h : ∀ c ∈ cs, isFloatChar c = true) : OneLine cs := by
  intro c hc
  constructor
  · rintro rfl
    exact absurd (h '\r' hc) (by decide)
  · rintro rfl
    exact absurd (h '\n' hc) (by decide)

theorem oneLine_digits (n : ℕ) : OneLine (Nat.toDigits 10 n) := by
  refine oneLine_of_isFloatChar fun c hc => ?_
  rw [isFloatChar, Nat.isDigit_of_mem_toDigits (by decide) (by decide) hc]
  rfl

theorem oneLine_int (n : ℤ) : OneLine (toString n).toList := by
  rw [Int.toString_eq_repr]
  cases n with
  | ofNat n =>
      rw [Int.repr, Nat.toList_repr]
      exact oneLine_digits n
  | negSucc n =>
      rw [Int.repr, String.toList_append, Nat.toList_repr]
      exact OneLine.append (by decide) (oneLine_digits _)

theorem ne_lineEnd_digitChar (n : ℕ) :
    Nat.digitChar n ≠ '\r' ∧ Nat.digitChar n ≠ '\n' := by
  simp

/-- The two line ends are escaped, and no escape contains one. -/
theorem oneLine_escapeChar (c : Char) : OneLine (escapeChar c) := by
  rw [escapeChar]
  cases hc : Dict.lookupEntries c escapeDct with
  | some e =>
      have hescapes : ∀ p ∈ escapeDct, OneLine ['\\', p.2] := by decide
      exact hescapes _ (Dict.mem_of_lookupEntries hc)
  | none =>
      have hkeys : ∀ p ∈ escapeDct, c ≠ p.1 := by
        intro p hp hcp
        exact Dict.lookupEntries_eq_none_iff.mp hc
          (hcp ▸ List.mem_map_of_mem hp)
      show OneLine (if c.toNat < 0x20 then _ else _)
      split_ifs
      · have hprefix : OneLine ['\\', 'u', '0', '0'] := by decide
        exact hprefix.append (OneLine.cons (ne_lineEnd_digitChar _)
          (OneLine.cons (ne_lineEnd_digitChar _) OneLine.nil))
      · exact OneLine.cons
          ⟨hkeys ('\r', 'r') (by decide), hkeys ('\n', 'n') (by decide)⟩
          OneLine.nil

theorem oneLine_dumpsStr (s : String) : OneLine (dumpsStr s) := by
  refine OneLine.cons (by decide) (OneLine.append ?_ (by decide))
  exact OneLine.flatMap fun c _ => oneLine_escapeChar c

theorem oneLine_dumpsFloat (fr : FloatRepr) (x : PyFloat) :
    OneLine (dumpsFloat fr x) := by
  cases x with
  | fin q => exact oneLine_of_isFloatChar (fr.chars q)
  | inf neg =>
      rw [dumpsFloat]
      cases neg <;> decide
  | nan =>
      rw [dumpsFloat]
      decide

theorem oneLine_bracketed {left right : Char} {items : List (List Char)}
    (hleft : OneLine [left]) (hright : OneLine [right])
    (hitems : ∀ item ∈ items, OneLine item) :
    OneLine (bracketed left right items) :=
  OneLine.append hleft
    (OneLine.append (OneLine.intercalate (by decide) hitems) hright)

mutual

/-- The text of a value has no line end. -/
theorem oneLine_dumps (fr : FloatRepr) : ∀ x : Json, OneLine (dumps fr x)
  | .null => by rw [dumps]; decide
  | .bool b => by cases b <;> (rw [dumps]; decide)
  | .int n => by rw [dumps]; exact oneLine_int n
  | .float x => by rw [dumps]; exact oneLine_dumpsFloat fr x
  | .str s => by rw [dumps]; exact oneLine_dumpsStr s
  | .arr xs => by
      rw [dumps]
      exact oneLine_bracketed (by decide) (by decide)
        (oneLine_dumpsItems fr xs)
  | .obj fields => by
      rw [dumps]
      exact oneLine_bracketed (by decide) (by decide)
        (oneLine_dumpsFields fr fields)

theorem oneLine_dumpsItems (fr : FloatRepr) :
    ∀ xs : List Json, ∀ item ∈ dumpsItems fr xs, OneLine item
  | [] => by simp [dumpsItems]
  | x :: xs => by
      rw [dumpsItems]
      exact List.forall_mem_cons.mpr
        ⟨oneLine_dumps fr x, oneLine_dumpsItems fr xs⟩

theorem oneLine_dumpsFields (fr : FloatRepr) :
    ∀ fields : List (String × Json),
      ∀ item ∈ dumpsFields fr fields, OneLine item
  | [] => by simp [dumpsFields]
  | (key, x) :: fields => by
      rw [dumpsFields]
      refine List.forall_mem_cons.mpr ⟨?_, oneLine_dumpsFields fr fields⟩
      exact OneLine.append
        (OneLine.append (oneLine_dumpsStr key) (by decide))
        (oneLine_dumps fr x)

end

end TTSR.Foundation.JsonText
