import TTSR.Foundation.JsonNumber
import TTSR.Foundation.JsonText

/-!
# Reading JSON texts

`json.loads` on a text: the scanner of values with its recursion limit, the
string scanner with its escapes and surrogate pairs, the digit limit of
integers, and the last of several values under one key. A string with a
surrogate that is not paired has no counterpart here; reading one is an error
of its own.
-/

namespace TTSR.Foundation.JsonDecode

open TTSR.Foundation.JsonNumber TTSR.Foundation.JsonText

/-- Why a text is not read. -/
inductive DecodeError where
  /-- The text is not JSON. -/
  | malformed
  /-- An integer has more digits than the interpreter converts. -/
  | digits
  /-- The value is nested deeper than the interpreter goes. -/
  | recursion
  /-- A string contains a lone surrogate. -/
  | surrogate
  /-- A loop over items ran for more steps than the text has characters. -/
  | fuel
deriving DecidableEq

/-- The interpreter a text is read by. -/
structure Decoder where
  /-- `float` on the text of a number. -/
  parseFloat : List Char → PyFloat
  /-- `sys.get_int_max_str_digits()`. -/
  maxDigits : ℕ
  /-- How many arrays and objects can be open. -/
  maxDepth : ℕ

/-- A scanner reads something at the start of a text and leaves the rest. -/
abbrev Scanner (α : Type) := List Char → Except DecodeError (α × List Char)

def isWhitespace (c : Char) : Bool :=
  c == ' ' || c == '\t' || c == '\n' || c == '\r'

def skipSpace (cs : List Char) : List Char := cs.dropWhile isWhitespace

/-! ## Strings -/

def hexDigit (c : Char) : Option ℕ :=
  if '0' ≤ c ∧ c ≤ '9' then some (c.toNat - 48)
  else if 'a' ≤ c ∧ c ≤ 'f' then some (c.toNat - 87)
  else if 'A' ≤ c ∧ c ≤ 'F' then some (c.toNat - 55)
  else none

/-- The number that four hexadecimal digits stand for. -/
def hex4 (a b c d : Char) : Option ℕ :=
  match hexDigit a, hexDigit b, hexDigit c, hexDigit d with
  | some a, some b, some c, some d => some (((a * 16 + b) * 16 + c) * 16 + d)
  | _, _, _, _ => none

def isHighSurrogate (n : ℕ) : Bool := 0xD800 ≤ n && n ≤ 0xDBFF

def isLowSurrogate (n : ℕ) : Bool := 0xDC00 ≤ n && n ≤ 0xDFFF

def joinSurrogates (high low : ℕ) : Char :=
  Char.ofNat (0x10000 + (high - 0xD800) * 0x400 + (low - 0xDC00))

/-- What follows the backslash of a two-character escape. -/
def unescapeDct : List (Char × Char) :=
  [('"', '"'), ('\\', '\\'), ('/', '/'), ('b', '\x08'), ('f', '\x0c'),
    ('n', '\n'), ('r', '\r'), ('t', '\t')]

/-- The character of two escaped surrogates, the first of them `high` and the
second one at the start of the text, with the number of characters used. -/
def readLowSurrogate (high : ℕ) :
    List Char → Except DecodeError (Char × ℕ)
  | '\\' :: 'u' :: a :: b :: c :: d :: _ =>
      match hex4 a b c d with
      | none => .error .malformed
      | some low =>
          if isLowSurrogate low then .ok (joinSurrogates high low, 6)
          else .error .surrogate
  | _ => .error .surrogate

/-- The character of an escape whose backslash has been read, with the number
of characters used. -/
def readEscape : List Char → Except DecodeError (Char × ℕ)
  | 'u' :: a :: b :: c :: d :: cs =>
      match hex4 a b c d with
      | none => .error .malformed
      | some n =>
          if isHighSurrogate n then
            (readLowSurrogate n cs).map fun (c, used) => (c, 5 + used)
          else if isLowSurrogate n then .error .surrogate
          else .ok (Char.ofNat n, 5)
  | e :: _ =>
      match Dict.lookupEntries e unescapeDct with
      | some c => .ok (c, 1)
      | none => .error .malformed
  | [] => .error .malformed

/-- The rest of a string whose opening quote has been read, with `acc`
(reversed) already read of its content, the first `skip` characters belonging
to the previous escape. -/
def scanString : List Char → ℕ → Scanner String
  | _, _, [] => .error .malformed
  | acc, skip + 1, _ :: cs => scanString acc skip cs
  | acc, 0, c :: cs =>
      if c = '"' then .ok (String.ofList acc.reverse, cs)
      else if c = '\\' then
        match readEscape cs with
        | .ok (c, used) => scanString (c :: acc) used cs
        | .error exc => .error exc
      else if c.toNat < 0x20 then .error .malformed
      else scanString (c :: acc) 0 cs

/-! ## Sequences -/

/-- The items of an array or an object, from one item on; `fuel` bounds their
number. -/
def scanItems {α : Type} (item : Scanner α) (right : Char) :
    ℕ → Scanner (List α)
  | 0, _ => .error .fuel
  | fuel + 1, cs => do
      let (x, cs) ← item cs
      match skipSpace cs with
      | [] => .error .malformed
      | c :: cs =>
          if c = right then .ok ([x], cs)
          else if c = ',' then do
            let (xs, cs) ← scanItems item right fuel (skipSpace cs)
            .ok (x :: xs, cs)
          else .error .malformed

/-- What follows the opening bracket. -/
def scanBracketed {α : Type} (item : Scanner α) (right : Char) :
    Scanner (List α) := fun cs =>
  let cs := skipSpace cs
  if cs.head? = some right then .ok ([], cs.tail)
  else scanItems item right (cs.length + 1) cs

/-- What follows the key of a field. -/
def scanColon (value : Scanner Json) (key : String) : Scanner (String × Json)
  | [] => .error .malformed
  | c :: cs =>
      if c = ':' then
        (value (skipSpace cs)).map fun (x, rest) => ((key, x), rest)
      else .error .malformed

/-- A key, a colon and a value. -/
def scanField (value : Scanner Json) : Scanner (String × Json)
  | [] => .error .malformed
  | c :: cs =>
      if c = '"' then do
        let (key, cs) ← scanString [] 0 cs
        scanColon value key (skipSpace cs)
      else .error .malformed

/-- The dictionary that is filled with the fields in their order. -/
def ofFields (fields : List (String × Json)) : List (String × Json) :=
  fields.foldl (fun es field => Dict.setEntries field.1 field.2 es) []

/-! ## Values -/

def literals : List (String × Json) :=
  [("null", .null), ("true", .bool true), ("false", .bool false),
    ("NaN", .float .nan), ("Infinity", .float (.inf false)),
    ("-Infinity", .float (.inf true))]

def scanLiteral (cs : List Char) : Option (Json × List Char) :=
  literals.findSome? fun lit =>
    if lit.1.toList.isPrefixOf cs then some (lit.2, cs.drop lit.1.toList.length)
    else none

def scanNumber (dec : Decoder) : Scanner Json := fun cs =>
  match scanParts cs with
  | none => .error .malformed
  | some (p, rest) =>
      if p.isFloat then .ok (.float (dec.parseFloat p.text), rest)
      else if dec.maxDigits < p.int.length then .error .digits
      else .ok (.int p.intValue, rest)

def scanScalar (dec : Decoder) : Scanner Json := fun cs =>
  match scanLiteral cs with
  | some (x, rest) => .ok (x, rest)
  | none => scanNumber dec cs

/-- `scan_once`, where `nested` scans the values one level deeper, if the
interpreter goes there. -/
def scanValue (dec : Decoder) (nested : Option (Scanner Json)) : Scanner Json
  | [] => .error .malformed
  | c :: cs =>
      if c = '"' then
        (scanString [] 0 cs).map fun (s, rest) => (.str s, rest)
      else if c = '[' then
        match nested with
        | none => .error .recursion
        | some scan =>
            (scanBracketed scan ']' cs).map fun (xs, rest) => (.arr xs, rest)
      else if c = '\x7b' then
        match nested with
        | none => .error .recursion
        | some scan =>
            (scanBracketed (scanField scan) '\x7d' cs).map
              fun (fields, rest) => (.obj (ofFields fields), rest)
      else scanScalar dec (c :: cs)

/-- `scan_once` with room for `depth` arrays and objects in one another. -/
def scanOnce (dec : Decoder) : ℕ → Scanner Json
  | 0 => scanValue dec none
  | depth + 1 => scanValue dec (some (scanOnce dec depth))

/-- `json.loads`. -/
def decode (dec : Decoder) (cs : List Char) : Except DecodeError Json :=
  if cs.head? = some '\ufeff' then .error .malformed else do
    let (x, rest) ← scanOnce dec dec.maxDepth (skipSpace cs)
    if skipSpace rest = [] then .ok x else .error .malformed

/-! ## Reading strings back -/

theorem scanString_quote (acc rest : List Char) :
    scanString acc 0 ('"' :: rest) = .ok (String.ofList acc.reverse, rest) := by
  rw [scanString, if_pos rfl]

/-- The characters of an escape are skipped. -/
theorem scanString_skip (acc used rest : List Char) :
    scanString acc used.length (used ++ rest) = scanString acc 0 rest := by
  induction used with
  | nil => rfl
  | cons c used ih => exact ih

theorem scanString_backslash {used rest : List Char} {c : Char}
    (h : readEscape (used ++ rest) = .ok (c, used.length)) (acc : List Char) :
    scanString acc 0 ('\\' :: (used ++ rest)) = scanString (c :: acc) 0 rest := by
  rw [scanString, if_neg (by decide), if_pos rfl, h]
  exact scanString_skip (c :: acc) used rest

theorem readEscape_escapeDct : ∀ p ∈ escapeDct, ∀ rest : List Char,
    readEscape (p.2 :: rest) = .ok (p.1, 1) := by
  simp [escapeDct, readEscape, unescapeDct, Dict.lookupEntries]

theorem hex4_control : ∀ n < 0x20,
    hex4 '0' '0' (Nat.digitChar (n / 16)) (Nat.digitChar (n % 16)) = some n := by
  decide

theorem readEscape_control {c : Char} (hc : c.toNat < 0x20) (rest : List Char) :
    readEscape ('u' :: '0' :: '0' :: Nat.digitChar (c.toNat / 16) ::
      Nat.digitChar (c.toNat % 16) :: rest) = .ok (c, 5) := by
  have hhigh : isHighSurrogate c.toNat = false := by
    simp only [isHighSurrogate, Bool.and_eq_false_iff, decide_eq_false_iff_not]
    omega
  have hlow : isLowSurrogate c.toNat = false := by
    simp only [isLowSurrogate, Bool.and_eq_false_iff, decide_eq_false_iff_not]
    omega
  rw [readEscape, hex4_control _ hc]
  simp [hhigh, hlow]

/-- What a character is written as is read as that character. -/
theorem scanString_escapeChar (c : Char) (acc rest : List Char) :
    scanString acc 0 (escapeChar c ++ rest) = scanString (c :: acc) 0 rest := by
  rw [escapeChar]
  cases hc : Dict.lookupEntries c escapeDct with
  | some e =>
      have hescape : readEscape ([e] ++ rest) = .ok (c, [e].length) :=
        readEscape_escapeDct (c, e) (Dict.mem_of_lookupEntries hc) rest
      exact scanString_backslash hescape acc
  | none =>
      have hkeys : ∀ p ∈ escapeDct, c ≠ p.1 := by
        intro p hp hcp
        exact Dict.lookupEntries_eq_none_iff.mp hc (hcp ▸ List.mem_map_of_mem hp)
      by_cases hcontrol : c.toNat < 0x20
      · rw [if_pos hcontrol]
        exact scanString_backslash (readEscape_control hcontrol rest) acc
      · rw [if_neg hcontrol]
        show scanString acc 0 (c :: rest) = _
        rw [scanString, if_neg (hkeys ('"', '"') (by decide)),
          if_neg (hkeys ('\\', '\\') (by decide)), if_neg hcontrol]

theorem scanString_flatMap (cs acc rest : List Char) :
    scanString acc 0 (cs.flatMap escapeChar ++ rest) =
      scanString (cs.reverse ++ acc) 0 rest := by
  induction cs generalizing acc with
  | nil => rfl
  | cons c cs ih =>
      rw [List.flatMap_cons, List.append_assoc, scanString_escapeChar, ih]
      simp

/-- A string is read back. -/
theorem scanString_dumpsStr (s : String) (rest : List Char) :
    scanString [] 0 ((dumpsStr s).tail ++ rest) = .ok (s, rest) := by
  rw [dumpsStr, List.tail_cons, List.append_assoc, scanString_flatMap]
  show scanString _ 0 ('"' :: rest) = _
  rw [scanString_quote]
  simp

/-! ## Literals and numbers -/

theorem scanLiteral_append : ∀ lit ∈ literals, ∀ rest : List Char,
    scanLiteral (lit.1.toList ++ rest) = some (lit.2, rest) := by
  intro lit hlit rest
  simp only [literals, List.mem_cons, List.not_mem_nil, or_false] at hlit
  rcases hlit with rfl | rfl | rfl | rfl | rfl | rfl <;> rfl

/-- A literal starts like no number. -/
theorem literal_head : ∀ lit ∈ literals,
    (∃ c cs, lit.1.toList = c :: cs ∧ c.isDigit = false ∧ c ≠ '-') ∨
      ∃ c cs, lit.1.toList = '-' :: c :: cs ∧ c.isDigit = false := by
  intro lit hlit
  simp only [literals, List.mem_cons, List.not_mem_nil, or_false] at hlit
  rcases hlit with rfl | rfl | rfl | rfl | rfl | rfl
  on_goal 6 => exact Or.inr ⟨'I', _, rfl, by decide⟩
  all_goals exact Or.inl ⟨_, _, rfl, by decide, by decide⟩

theorem not_isPrefixOf_numeral {p : Parts} (hp : p.IsNumeral) {cs : List Char}
    (hcs : (∃ c cs', cs = c :: cs' ∧ c.isDigit = false ∧ c ≠ '-') ∨
      ∃ c cs', cs = '-' :: c :: cs' ∧ c.isDigit = false) (rest : List Char) :
    cs.isPrefixOf (p.text ++ rest) = false := by
  obtain ⟨d, ds, hds, hd⟩ := (digits_int hp).exists_cons
  rw [Parts.text, hds]
  rcases hcs with ⟨c, cs', rfl, hc, hminus⟩ | ⟨c, cs', rfl, hc⟩
  all_goals
    have hcd : c ≠ d := by
      rintro rfl
      rw [hc] at hd
      cases hd
    rcases hp.sign with hsign | hsign
  · simp [hsign, List.isPrefixOf, hcd]
  · simp [hsign, List.isPrefixOf, hminus]
  · have hdm : '-' ≠ d := by
      rintro rfl
      cases hd
    simp [hsign, List.isPrefixOf, hdm]
  · simp [hsign, List.isPrefixOf, hcd]

theorem scanLiteral_numeral {p : Parts} (hp : p.IsNumeral) (rest : List Char) :
    scanLiteral (p.text ++ rest) = none := by
  rw [scanLiteral, List.findSome?_eq_none_iff]
  intro lit hlit
  rw [not_isPrefixOf_numeral hp (literal_head lit hlit), if_neg Bool.false_ne_true]

end TTSR.Foundation.JsonDecode
