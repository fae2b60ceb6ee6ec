import TTSR.Foundation.JsonDecode
import TTSR.Foundation.Rounding

/-!
# Reading back what was written

`json.dumps` puts white space where its layout says, on one line or with
`indent`; no layout matters to the decoder. A value with distinct keys, doubles
for floats, and within the limits of the interpreter is read back from its text
(`decode_encode`).
-/

namespace TTSR.Foundation.JsonDecode

open TTSR.Foundation.JsonNumber TTSR.Foundation.JsonText
open TTSR.Foundation.Rounding

/-! ## Layouts -/

/-- Where an encoder puts white space: after an opening bracket, after a comma,
and before a closing bracket, each at a level of nesting. -/
structure Layout where
  opening : ℕ → List Char
  separator : ℕ → List Char
  closing : ℕ → List Char
  opening_blank : ∀ level, ∀ c ∈ opening level, isWhitespace c = true
  separator_blank : ∀ level, ∀ c ∈ separator level, isWhitespace c = true
  closing_blank : ∀ level, ∀ c ∈ closing level, isWhitespace c = true

/-- Items on one line. -/
def Layout.compact : Layout where
  opening _ := []
  separator _ := [' ']
  closing _ := []
  opening_blank := by simp
  separator_blank := by simp [isWhitespace]
  closing_blank := by simp

/-- A new line, indented by `width` for each level. -/
def newlineIndent (width level : ℕ) : List Char :=
  '\n' :: List.replicate (width * level) ' '

theorem isWhitespace_newlineIndent (width level : ℕ) :
    ∀ c ∈ newlineIndent width level, isWhitespace c = true := by
  intro c hc
  rcases List.mem_cons.mp hc with rfl | hc
  · rfl
  · rw [List.eq_of_mem_replicate hc]
    rfl

/-- Items on lines of their own, as with `indent=width`. -/
def Layout.indented (width : ℕ) : Layout where
  opening level := newlineIndent width (level + 1)
  separator level := newlineIndent width (level + 1)
  closing level := newlineIndent width level
  opening_blank _ := isWhitespace_newlineIndent _ _
  separator_blank _ := isWhitespace_newlineIndent _ _
  closing_blank _ := isWhitespace_newlineIndent _ _

def bracketedIn (l : Layout) (level : ℕ) (left right : Char)
    (items : List (List Char)) : List Char :=
  if items = [] then [left, right]
  else left :: (l.opening level ++
    ((',' :: l.separator level).intercalate items ++
      (l.closing level ++ [right])))

mutual

/-- The text of a value at a level of nesting. -/
def encode (fr : FloatRepr) (l : Layout) : ℕ → Json → List Char
  | _, .null => "null".toList
  | _, .bool b => (if b then "true" else "false").toList
  | _, .int n => (toString n).toList
  | _, .float x => dumpsFloat fr x
  | _, .str s => dumpsStr s
  | level, .arr xs =>
      bracketedIn l level '[' ']' (encodeItems fr l (level + 1) xs)
  | level, .obj fields =>
      bracketedIn l level '\x7b' '\x7d' (encodeFields fr l (level + 1) fields)

def encodeItems (fr : FloatRepr) (l : Layout) :
    ℕ → List Json → List (List Char)
  | _, [] => []
  | level, x :: xs => encode fr l level x :: encodeItems fr l level xs

def encodeFields (fr : FloatRepr) (l : Layout) :
    ℕ → List (String × Json) → List (List Char)
  | _, [] => []
  | level, (key, x) :: fields =>
      (dumpsStr key ++ [':', ' '] ++ encode fr l level x) ::
        encodeFields fr l level fields

end

theorem encodeItems_eq_map (fr : FloatRepr) (l : Layout) (level : ℕ)
    (xs : List Json) :
    encodeItems fr l level xs = xs.map (encode fr l level) := by
  induction xs with
  | nil => simp [encodeItems]
  | cons x xs ih => rw [encodeItems, ih, List.map_cons]

theorem encodeFields_eq_map (fr : FloatRepr) (l : Layout) (level : ℕ)
    (fields : List (String × Json)) :
    encodeFields fr l level fields = fields.map fun field =>
      dumpsStr field.1 ++ [':', ' '] ++ encode fr l level field.2 := by
  induction fields with
  | nil => simp [encodeFields]
  | cons field fields ih => rw [encodeFields, ih, List.map_cons]

theorem bracketedIn_compact (level : ℕ) (left right : Char)
    (items : List (List Char)) :
    bracketedIn .compact level left right items =
      bracketed left right items := by
  unfold bracketedIn bracketed
  split_ifs with hitems
  · rw [hitems]
    rfl
  · rfl

mutual

/-- On one line, the text is that of `dumps`. -/
theorem encode_compact (fr : FloatRepr) :
    ∀ (level : ℕ) (x : Json), encode fr .compact level x = dumps fr x
  | _, .null => by rw [encode, dumps]
  | _, .bool b => by rw [encode, dumps]
  | _, .int n => by rw [encode, dumps]
  | _, .float x => by rw [encode, dumps]
  | _, .str s => by rw [encode, dumps]
  | level, .arr xs => by
      rw [encode, dumps, bracketedIn_compact, encodeItems_compact]
  | level, .obj fields => by
      rw [encode, dumps, bracketedIn_compact, encodeFields_compact]

theorem encodeItems_compact (fr : FloatRepr) :
    ∀ (level : ℕ) (xs : List Json),
      encodeItems fr .compact level xs = dumpsItems fr xs
  | _, [] => by rw [encodeItems, dumpsItems]
  | level, x :: xs => by
      rw [encodeItems, dumpsItems, encode_compact fr level x,
        encodeItems_compact fr level xs]

theorem encodeFields_compact (fr : FloatRepr) :
    ∀ (level : ℕ) (fields : List (String × Json)),
      encodeFields fr .compact level fields = dumpsFields fr fields
  | _, [] => by rw [encodeFields, dumpsFields]
  | level, (key, x) :: fields => by
      rw [encodeFields, dumpsFields, encode_compact fr level x,
        encodeFields_compact fr level fields]

end

/-! ## Reading sequences back -/

theorem skipSpace_append {blank cs : List Char}
    (hblank : ∀ c ∈ blank, isWhitespace c = true) :
    skipSpace (blank ++ cs) = skipSpace cs :=
  List.dropWhile_append_of_pos hblank

theorem skipSpace_cons {c : Char} {cs : List Char}
    (hc : isWhitespace c = false) : skipSpace (c :: cs) = c :: cs := by
  rw [skipSpace, List.dropWhile_cons_of_neg (by simp [hc])]

theorem ends_of_isWhitespace {c : Char} {cs : List Char}
    (hc : isWhitespace c = true) : Ends (c :: cs) := by
  rw [ends_cons]
  have hcases : c = ' ' ∨ c = '\t' ∨ c = '\n' ∨ c = '\r' := by
    simpa [isWhitespace, or_assoc] using hc
  rcases hcases with rfl | rfl | rfl | rfl <;> decide

theorem ends_append {blank rest : List Char}
    (hblank : ∀ c ∈ blank, isWhitespace c = true) (h : Ends rest) :
    Ends (blank ++ rest) := by
  cases blank with
  | nil => exact h
  | cons c blank => exact ends_of_isWhitespace (hblank c List.mem_cons_self)

/-- A closing bracket is neither blank nor a comma, and it ends a number. -/
structure IsRight (right : Char) : Prop where
  not_blank : isWhitespace right = false
  ne_comma : right ≠ ','
  ends : ∀ rest, Ends (right :: rest)

theorem isRight_bracket : IsRight ']' :=
  ⟨by decide, by decide, fun _ => ends_cons.mpr (by decide)⟩

theorem isRight_brace : IsRight '\x7d' :=
  ⟨by decide, by decide, fun _ => ends_cons.mpr (by decide)⟩

/-- `item` reads `x` from its text, whatever follows, and the text does not
start like the end of a sequence. -/
structure ReadsItem {α : Type} (item : Scanner α) (x : α) (text : List Char) :
    Prop where
  scan : ∀ rest, Ends rest → item (text ++ rest) = .ok (x, rest)
  head : ∃ c cs, text = c :: cs ∧ isWhitespace c = false ∧ c ≠ ']' ∧ c ≠ '\x7d'

section Sequences

variable {α : Type} {item : Scanner α} {right : Char} {xs : List α}
  {texts : List (List Char)} {sep close rest : List Char}

theorem skipSpace_readsItem {x : α} {text : List Char}
    (h : ReadsItem item x text) (rest : List Char) :
    skipSpace (text ++ rest) = text ++ rest := by
  obtain ⟨c, cs, rfl, hc, -⟩ := h.head
  exact skipSpace_cons hc

theorem scanItems_last {x : α} {cs cs' : List Char} (fuel : ℕ)
    (hitem : item cs = .ok (x, cs')) (hskip : skipSpace cs' = right :: rest) :
    scanItems item right (fuel + 1) cs = .ok ([x], rest) := by
  rw [scanItems, hitem]
  simp only [bind, Except.bind, hskip]
  exact if_pos trivial

theorem scanItems_comma {x : α} {cs cs' cs'' : List Char} {fuel : ℕ}
    (hitem : item cs = .ok (x, cs')) (hskip : skipSpace cs' = ',' :: cs'')
    (hright : right ≠ ',')
    (hxs : scanItems item right fuel (skipSpace cs'') = .ok (xs, rest)) :
    scanItems item right (fuel + 1) cs = .ok (x :: xs, rest) := by
  rw [scanItems, hitem]
  simp only [bind, Except.bind, hskip, if_neg hright.symm, hxs]
  exact if_pos trivial

theorem exists_intercalate_cons (sep text : List Char)
    (texts : List (List Char)) :
    ∃ tail, sep.intercalate (text :: texts) = text ++ tail := by
  cases texts with
  | nil => exact ⟨[], by simp⟩
  | cons text' texts =>
      exact ⟨_, by rw [List.intercalate_cons_cons, List.append_assoc]⟩

/-- Items separated by commas are read back, up to the closing bracket. -/
theorem scanItems_intercalate (hright : IsRight right)
    (hsep : ∀ c ∈ sep, isWhitespace c = true)
    (hclose : ∀ c ∈ close, isWhitespace c = true)
    (hitems : List.Forall₂ (ReadsItem item) xs texts) (hne : xs ≠ [])
    {fuel : ℕ} (hfuel : xs.length ≤ fuel) :
    scanItems item right fuel
        ((',' :: sep).intercalate texts ++ (close ++ right :: rest)) =
      .ok (xs, rest) := by
  induction hitems generalizing fuel with
  | nil => exact absurd rfl hne
  | @cons x text xs texts hitem hitems ih =>
      obtain ⟨fuel, rfl⟩ : ∃ n, fuel = n + 1 :=
        ⟨fuel - 1, by rw [List.length_cons] at hfuel; omega⟩
      rw [List.length_cons, Nat.add_le_add_iff_right] at hfuel
      cases hitems with
      | nil =>
          rw [List.intercalate_singleton]
          apply scanItems_last fuel
            (hitem.scan _ (ends_append hclose (hright.ends rest)))
          rw [skipSpace_append hclose, skipSpace_cons hright.not_blank]
      | @cons x' text' xs texts hitem' hitems' =>
          have hcat : (',' :: sep).intercalate (text :: text' :: texts) ++
                (close ++ right :: rest) =
              text ++ ',' :: (sep ++ ((',' :: sep).intercalate (text' :: texts) ++
                (close ++ right :: rest))) := by
            simp [List.intercalate_cons_cons]
          have hskip : skipSpace (sep ++
                ((',' :: sep).intercalate (text' :: texts) ++
                (close ++ right :: rest))) =
              (',' :: sep).intercalate (text' :: texts) ++
                (close ++ right :: rest) := by
            obtain ⟨tail, htail⟩ := exists_intercalate_cons (',' :: sep) text' texts
            rw [skipSpace_append hsep, htail, List.append_assoc]
            exact skipSpace_readsItem hitem' _
          rw [hcat]
          apply scanItems_comma (hitem.scan _ (ends_cons.mpr (by decide)))
            (skipSpace_cons (by decide)) hright.ne_comma
          rw [hskip]
          exact ih (List.cons_ne_nil _ _) hfuel

/-- There are at least as many characters as items. -/
theorem length_le_intercalate (sep : List Char)
    (hitems : List.Forall₂ (ReadsItem item) xs texts) :
    xs.length ≤ (sep.intercalate texts).length := by
  induction hitems with
  | nil => exact Nat.zero_le _
  | @cons x text xs texts hitem hitems ih =>
      obtain ⟨c, cs, rfl, -⟩ := hitem.head
      cases hitems with
      | nil => simp
      | cons hitem' hitems' =>
          rw [List.intercalate_cons_cons]
          simp only [List.length_cons, List.length_append] at ih ⊢
          omega

/-- A sequence in its brackets is read back from any layout. -/
theorem scanBracketed_bracketedIn (hright : right = ']' ∨ right = '\x7d')
    (hitems : List.Forall₂ (ReadsItem item) xs texts) (l : Layout)
    (level : ℕ) (left : Char) (rest : List Char) :
    ∃ cs, bracketedIn l level left right texts ++ rest = left :: cs ∧
      scanBracketed item right cs = .ok (xs, rest) := by
  have hIsRight : IsRight right := by
    rcases hright with rfl | rfl
    · exact isRight_bracket
    · exact isRight_brace
  cases hitems with
  | nil =>
      refine ⟨right :: rest, rfl, ?_⟩
      rw [scanBracketed, skipSpace_cons hIsRight.not_blank]
      exact if_pos rfl
  | @cons x text xs texts hitem hitems =>
      let body := (',' :: l.separator level).intercalate (text :: texts) ++
        (l.closing level ++ right :: rest)
      refine ⟨l.opening level ++ body, ?_, ?_⟩
      · rw [bracketedIn, if_neg (List.cons_ne_nil _ _)]
        simp [body]
      · obtain ⟨c, cs, hc, hblank, hbracket, hbrace⟩ := hitem.head
        obtain ⟨cs', hbody⟩ : ∃ cs', body = c :: cs' := by
          obtain ⟨tail, htail⟩ :=
            exists_intercalate_cons (',' :: l.separator level) text texts
          exact ⟨_, by rw [show body = _ ++ _ from rfl, htail, hc]; rfl⟩
        have hne : c ≠ right := by
          rcases hright with rfl | rfl
          · exact hbracket
          · exact hbrace
        have hskip : skipSpace (l.opening level ++ body) = body := by
          rw [skipSpace_append (l.opening_blank level), hbody, skipSpace_cons hblank]
        have hhead : body.head? ≠ some right := by
          rw [hbody]
          simpa using hne
        have hforall : List.Forall₂ (ReadsItem item) (x :: xs) (text :: texts) :=
          .cons hitem hitems
        have hlength := length_le_intercalate (',' :: l.separator level) hforall
        rw [scanBracketed, hskip, if_neg hhead]
        apply scanItems_intercalate hIsRight (l.separator_blank level)
          (l.closing_blank level) hforall (List.cons_ne_nil _ _)
        rw [List.length_append]
        omega

end Sequences

/-! ## Reading values back -/

/-- `float` reads what `float.__repr__` writes, and the text is that of a
number with a fraction or an exponent. -/
def ReadsFloats (fr : FloatRepr) (dec : Decoder) : Prop :=
  ∀ q, IsDouble q → ∃ p : Parts, p.IsNumeral ∧ p.isFloat = true ∧
    p.text = fr.repr q ∧ dec.parseFloat p.text = .fin q

/-- What an encoder's text is read back from: integers within the digit limit,
floats that are doubles, `nested` values in arrays and objects, and distinct
keys. -/
def EncodableIn (dec : Decoder) (nested : Option (Json → Prop)) : Json → Prop
  | .int n => (Nat.toDigits 10 n.natAbs).length ≤ dec.maxDigits
  | .float (.fin q) => IsDouble q
  | .arr xs => ∃ ok, nested = some ok ∧ ∀ x ∈ xs, ok x
  | .obj fields => ∃ ok, nested = some ok ∧ (fields.map Prod.fst).Nodup ∧
      ∀ field ∈ fields, ok field.2
  | _ => True

/-- `EncodableIn` to a depth of nesting. -/
def Encodable (dec : Decoder) : ℕ → Json → Prop
  | 0 => EncodableIn dec none
  | depth + 1 => EncodableIn dec (some (Encodable dec depth))

section Encodable

variable {dec : Decoder} {depth : ℕ}

@[simp] theorem encodable_null : Encodable dec depth .null := by
  cases depth <;> trivial

@[simp] theorem encodable_bool (b : Bool) : Encodable dec depth (.bool b) := by
  cases depth <;> trivial

@[simp] theorem encodable_str (s : String) : Encodable dec depth (.str s) := by
  cases depth <;> trivial

@[simp] theorem encodable_int (n : ℤ) : Encodable dec depth (.int n) ↔
    (Nat.toDigits 10 n.natAbs).length ≤ dec.maxDigits := by
  cases depth <;> exact Iff.rfl

@[simp] theorem encodable_float (q : ℚ) :
    Encodable dec depth (.float (.fin q)) ↔ IsDouble q := by
  cases depth <;> exact Iff.rfl

@[simp] theorem encodable_arr (xs : List Json) :
    Encodable dec (depth + 1) (.arr xs) ↔ ∀ x ∈ xs, Encodable dec depth x := by
  constructor
  · rintro ⟨ok, hok, hxs⟩
    obtain rfl := Option.some.inj hok
    exact hxs
  · exact fun hxs => ⟨_, rfl, hxs⟩

@[simp] theorem encodable_obj (fields : List (String × Json)) :
    Encodable dec (depth + 1) (.obj fields) ↔ (fields.map Prod.fst).Nodup ∧
      ∀ field ∈ fields, Encodable dec depth field.2 := by
  constructor
  · rintro ⟨ok, hok, hfields⟩
    obtain rfl := Option.some.inj hok
    exact hfields
  · exact fun hfields => ⟨_, rfl, hfields⟩

end Encodable

theorem setEntries_of_notMem {key : String} {x : Json}
    {es : List (String × Json)} (h : key ∉ es.map Prod.fst) :
    Dict.setEntries key x es = es ++ [(key, x)] := by
  induction es with
  | nil => rfl
  | cons e es ih =>
      rw [List.map_cons, List.mem_cons, not_or] at h
      rw [Dict.setEntries, if_neg (Ne.symm h.1), ih h.2]
      rfl

/-- Fields with distinct keys fill a dictionary in their order. -/
theorem ofFields_eq_self {fields : List (String × Json)}
    (h : (fields.map Prod.fst).Nodup) : ofFields fields = fields := by
  have hgo : ∀ (es fields : List (String × Json)),
      ((es ++ fields).map Prod.fst).Nodup →
      fields.foldl (fun es field => Dict.setEntries field.1 field.2 es) es =
        es ++ fields := by
    intro es fields
    induction fields generalizing es with
    | nil => simp
    | cons field fields ih =>
        intro hnodup
        have hnot : field.1 ∉ es.map Prod.fst := by
          rw [List.map_append, List.map_cons] at hnodup
          intro hmem
          exact (List.nodup_append.mp hnodup).2.2 _ hmem _ List.mem_cons_self rfl
        rw [List.foldl_cons, setEntries_of_notMem hnot, ih _ (by simpa using hnodup)]
        simp
  exact hgo [] fields h

section Values

variable {fr : FloatRepr} {dec : Decoder}

/-- A character that starts neither a string nor a bracket, and no blank. -/
def StartsScalar (c : Char) : Prop :=
  c ∉ ['"', '[', '\x7b', ']', '\x7d', ' ', '\t', '\n', '\r']

instance (c : Char) : Decidable (StartsScalar c) :=
  inferInstanceAs (Decidable (c ∉ _))

theorem scanValue_scalar {nested : Option (Scanner Json)} {c : Char}
    (hquote : c ≠ '"') (hbracket : c ≠ '[') (hbrace : c ≠ '\x7b')
    (cs : List Char) :
    scanValue dec nested (c :: cs) = scanScalar dec (c :: cs) := by
  rw [scanValue.eq_def]
  show (if c = '"' then _ else _) = _
  rw [if_neg hquote, if_neg hbracket, if_neg hbrace]

theorem readsItem_scalar {nested : Option (Scanner Json)} {x : Json}
    {c : Char} {cs : List Char} (hc : StartsScalar c)
    (hscan : ∀ rest, Ends rest →
      scanLiteral (c :: (cs ++ rest)) = some (x, rest) ∨
        scanLiteral (c :: (cs ++ rest)) = none ∧
          scanNumber dec (c :: (cs ++ rest)) = .ok (x, rest)) :
    ReadsItem (scanValue dec nested) x (c :: cs) where
  scan rest hrest := by
    have hc' := hc
    simp only [StartsScalar, List.mem_cons, not_or] at hc'
    rw [List.cons_append, scanValue_scalar hc'.1 hc'.2.1 hc'.2.2.1, scanScalar]
    rcases hscan rest hrest with hliteral | ⟨hliteral, hnumber⟩
    · rw [hliteral]
    · rw [hliteral]
      exact hnumber
  head := by
    simp only [StartsScalar, List.mem_cons, not_or] at hc
    refine ⟨c, cs, rfl, ?_, hc.2.2.2.1, hc.2.2.2.2.1⟩
    simp [isWhitespace, hc]

theorem readsItem_literal {nested : Option (Scanner Json)} (lit : String × Json)
    (hlit : lit ∈ literals) :
    ReadsItem (scanValue dec nested) lit.2 lit.1.toList := by
  obtain ⟨c, cs, hcs, hc⟩ : ∃ c cs, lit.1.toList = c :: cs ∧ StartsScalar c := by
    simp only [literals, List.mem_cons, List.not_mem_nil, or_false] at hlit
    rcases hlit with rfl | rfl | rfl | rfl | rfl | rfl
    all_goals exact ⟨_, _, rfl, by decide⟩
  rw [hcs]
  refine readsItem_scalar hc fun rest _ => Or.inl ?_
  have hliteral := scanLiteral_append lit hlit rest
  rwa [hcs] at hliteral

theorem startsScalar_of_isDigit {c : Char} (hc : c.isDigit = true) :
    StartsScalar c := by
  intro hmem
  have hnone : ∀ c ∈ ['"', '[', '\x7b', ']', '\x7d', ' ', '\t', '\n', '\r'],
      c.isDigit = false := by simp
  rw [hnone c hmem] at hc
  cases hc

theorem readsItem_numeral {nested : Option (Scanner Json)} {p : Parts}
    {x : Json} (hp : p.IsNumeral)
    (hx : ∀ rest, scanParts (p.text ++ rest) = some (p, rest) →
      scanNumber dec (p.text ++ rest) = .ok (x, rest)) :
    ReadsItem (scanValue dec nested) x p.text := by
  obtain ⟨c, cs, hcs, hc⟩ : ∃ c cs, p.text = c :: cs ∧ StartsScalar c := by
    obtain ⟨d, ds, hds, hd⟩ := (digits_int hp).exists_cons
    rw [Parts.text, hds]
    rcases hp.sign with hsign | hsign
    · exact ⟨d, _, by rw [hsign]; rfl, startsScalar_of_isDigit hd⟩
    · exact ⟨'-', _, by rw [hsign]; rfl, by decide⟩
  have hnumber : ∀ rest, Ends rest →
      scanLiteral (c :: (cs ++ rest)) = some (x, rest) ∨
        scanLiteral (c :: (cs ++ rest)) = none ∧
          scanNumber dec (c :: (cs ++ rest)) = .ok (x, rest) := by
    intro rest hrest
    rw [← List.cons_append, ← hcs]
    exact Or.inr ⟨scanLiteral_numeral hp rest, hx rest (scanParts_append hp hrest)⟩
  rw [hcs]
  exact readsItem_scalar hc hnumber

theorem readsItem_int {nested : Option (Scanner Json)} {n : ℤ}
    (hn : (Nat.toDigits 10 n.natAbs).length ≤ dec.maxDigits) :
    ReadsItem (scanValue dec nested) (.int n) (toString n).toList := by
  rw [← text_intParts]
  refine readsItem_numeral (isNumeral_intParts n) fun rest hscan => ?_
  have hdigits : ¬dec.maxDigits < (intParts n).int.length := Nat.not_lt.mpr hn
  rw [scanNumber, hscan]
  show (if (intParts n).isFloat = true then _ else _) = _
  rw [if_neg (by simp [Parts.isFloat, intParts]), if_neg hdigits,
    intValue_intParts]

theorem readsItem_float {nested : Option (Scanner Json)} {x : PyFloat}
    (hfr : ReadsFloats fr dec) (hx : ∀ q, x = .fin q → IsDouble q) :
    ReadsItem (scanValue dec nested) (.float x) (dumpsFloat fr x) := by
  cases x with
  | fin q =>
      obtain ⟨p, hp, hfloat, htext, hparse⟩ := hfr q (hx q rfl)
      rw [dumpsFloat, ← htext]
      refine readsItem_numeral hp fun rest hscan => ?_
      rw [scanNumber, hscan]
      show (if p.isFloat = true then _ else _) = _
      rw [if_pos hfloat, hparse]
  | inf neg =>
      cases neg with
      | false => exact readsItem_literal ("Infinity", _) (by simp [literals])
      | true => exact readsItem_literal ("-Infinity", _) (by simp [literals])
  | nan => exact readsItem_literal ("NaN", _) (by simp [literals])

theorem readsItem_str {nested : Option (Scanner Json)} (s : String) :
    ReadsItem (scanValue dec nested) (.str s) (dumpsStr s) where
  scan rest _ := by
    have hscan := scanString_dumpsStr s rest
    rw [dumpsStr, List.tail_cons] at hscan
    rw [dumpsStr, List.cons_append, scanValue.eq_def]
    show (if '"' = '"' then _ else _) = _
    rw [if_pos rfl, hscan]
    rfl
  head := ⟨'"', _, rfl, by decide, by decide, by decide⟩

theorem readsItem_field {scan : Scanner Json} {key : String} {x : Json}
    {text : List Char} (hx : ReadsItem scan x text) :
    ReadsItem (scanField scan) (key, x) (dumpsStr key ++ [':', ' '] ++ text) where
  scan rest hrest := by
    have hkey := scanString_dumpsStr key (':' :: ' ' :: (text ++ rest))
    have hblank : ∀ c ∈ [' '], isWhitespace c = true := by simp [isWhitespace]
    have hspace : skipSpace (' ' :: (text ++ rest)) = text ++ rest :=
      (skipSpace_append hblank).trans (skipSpace_readsItem hx rest)
    have hcat : dumpsStr key ++ [':', ' '] ++ text ++ rest =
        '"' :: ((dumpsStr key).tail ++ ':' :: ' ' :: (text ++ rest)) := by
      simp [dumpsStr]
    rw [hcat, scanField.eq_def]
    show (if '"' = '"' then _ else _) = _
    rw [if_pos rfl, hkey]
    show scanColon scan key (skipSpace (':' :: ' ' :: (text ++ rest))) = _
    rw [skipSpace_cons (by decide), scanColon, if_pos rfl, hspace,
      hx.scan rest hrest]
    rfl
  head := ⟨'"', _, rfl, by decide, by decide, by decide⟩

theorem bracketedIn_head {left right : Char} (l : Layout) (level : ℕ)
    (items : List (List Char)) :
    ∃ cs, bracketedIn l level left right items = left :: cs := by
  unfold bracketedIn
  split_ifs
  · exact ⟨_, rfl⟩
  · exact ⟨_, rfl⟩

theorem forall₂_map_of_forall {α β γ : Type} {R : β → γ → Prop} {f : α → β}
    {g : α → γ} {xs : List α} (h : ∀ x ∈ xs, R (f x) (g x)) :
    List.Forall₂ R (xs.map f) (xs.map g) := by
  rw [List.forall₂_map_left_iff, List.forall₂_map_right_iff, List.forall₂_same]
  exact h

/-- An object is read back whatever follows it. -/
theorem scanValue_obj {scan : Scanner Json} (l : Layout) (level : ℕ)
    {fields : List (String × Json)} (hnodup : (fields.map Prod.fst).Nodup)
    (hfields : ∀ field ∈ fields,
      ReadsItem scan field.2 (encode fr l (level + 1) field.2))
    (rest : List Char) :
    scanValue dec (some scan) (encode fr l level (.obj fields) ++ rest) =
      .ok (.obj fields, rest) := by
  have hitems : List.Forall₂ (ReadsItem (scanField scan)) fields
      (encodeFields fr l (level + 1) fields) := by
    rw [encodeFields_eq_map]
    have hmap := forall₂_map_of_forall (R := ReadsItem (scanField scan)) (f := id)
      (g := fun field => dumpsStr field.1 ++ [':', ' '] ++
        encode fr l (level + 1) field.2)
      fun field hfield => readsItem_field (hfields field hfield)
    rwa [List.map_id] at hmap
  obtain ⟨cs, hcs, hread⟩ := scanBracketed_bracketedIn (Or.inr rfl) hitems l level
    '\x7b' rest
  rw [encode, hcs, scanValue.eq_def]
  show (if '\x7b' = '"' then _ else _) = _
  rw [if_neg (by decide), if_neg (by decide), if_pos rfl]
  show (scanBracketed (scanField scan) '\x7d' cs).map _ = _
  rw [hread]
  show Except.ok (Json.obj (ofFields fields), rest) = _
  rw [ofFields_eq_self hnodup]

/-- If nested values are read back, so is a value that contains them. -/
theorem readsItem_scanValue (hfr : ReadsFloats fr dec) (l : Layout)
    {nested : Option (Scanner Json)} {nestedOk : Option (Json → Prop)}
    (hnested : ∀ ok, nestedOk = some ok → ∃ scan, nested = some scan ∧
      ∀ x, ok x → ∀ level, ReadsItem scan x (encode fr l level x))
    {x : Json} (hx : EncodableIn dec nestedOk x) (level : ℕ) :
    ReadsItem (scanValue dec nested) x (encode fr l level x) := by
  cases x with
  | null =>
      rw [encode]
      exact readsItem_literal ("null", _) (by simp [literals])
  | bool b =>
      rw [encode]
      cases b with
      | false => exact readsItem_literal ("false", _) (by simp [literals])
      | true => exact readsItem_literal ("true", _) (by simp [literals])
  | int n =>
      rw [encode]
      exact readsItem_int hx
  | float x =>
      rw [encode]
      refine readsItem_float hfr ?_
      rintro q rfl
      exact hx
  | str s =>
      rw [encode]
      exact readsItem_str s
  | arr xs =>
      obtain ⟨ok, hok, hxs⟩ := hx
      obtain ⟨scan, rfl, hscan⟩ := hnested ok hok
      have hitems : List.Forall₂ (ReadsItem scan) xs
          (encodeItems fr l (level + 1) xs) := by
        rw [encodeItems_eq_map]
        have hmap := forall₂_map_of_forall (R := ReadsItem scan) (f := id)
          (g := encode fr l (level + 1)) fun x hx => hscan x (hxs x hx) _
        rwa [List.map_id] at hmap
      rw [encode]
      refine ⟨fun rest _ => ?_, ?_⟩
      · obtain ⟨cs, hcs, hread⟩ := scanBracketed_bracketedIn (Or.inl rfl) hitems l
          level '[' rest
        rw [hcs, scanValue.eq_def]
        show (if '[' = '"' then _ else _) = _
        rw [if_neg (by decide), if_pos rfl]
        show (scanBracketed scan ']' cs).map _ = _
        rw [hread]
        rfl
      · obtain ⟨cs, hcs⟩ := bracketedIn_head l level (encodeItems fr l (level + 1) xs)
        exact ⟨'[', cs, hcs, by decide, by decide, by decide⟩
  | obj fields =>
      obtain ⟨ok, hok, hnodup, hfields⟩ := hx
      obtain ⟨scan, rfl, hscan⟩ := hnested ok hok
      have hread : ∀ field ∈ fields,
          ReadsItem scan field.2 (encode fr l (level + 1) field.2) :=
        fun field hfield => hscan field.2 (hfields field hfield) _
      refine ⟨fun rest _ => scanValue_obj l level hnodup hread rest, ?_⟩
      rw [encode]
      obtain ⟨cs, hcs⟩ := bracketedIn_head l level
        (encodeFields fr l (level + 1) fields)
      exact ⟨'\x7b', cs, hcs, by decide, by decide, by decide⟩

theorem readsItem_scanOnce (hfr : ReadsFloats fr dec) (l : Layout)
    (depth : ℕ) : ∀ {x : Json}, Encodable dec depth x → ∀ level,
      ReadsItem (scanOnce dec depth) x (encode fr l level x) := by
  induction depth with
  | zero =>
      intro x hx level
      exact readsItem_scanValue hfr l (fun ok hok => by cases hok) hx level
  | succ depth ih =>
      intro x hx level
      refine readsItem_scanValue hfr l (fun ok hok => ?_) hx level
      obtain rfl := Option.some.inj hok
      exact ⟨_, rfl, fun x hx level => ih hx level⟩

theorem scanOnce_bom (depth : ℕ) (cs : List Char) :
    scanOnce dec depth ('\ufeff' :: cs) = .error .malformed := by
  cases depth <;> rfl

/-- An object within the limits is read back whatever follows it. -/
theorem scanOnce_obj (hfr : ReadsFloats fr dec) (l : Layout) {depth : ℕ}
    {fields : List (String × Json)} (hfields : Encodable dec depth (.obj fields))
    (level : ℕ) (rest : List Char) :
    scanOnce dec depth (encode fr l level (.obj fields) ++ rest) =
      .ok (.obj fields, rest) := by
  cases depth with
  | zero =>
      obtain ⟨ok, hok, -⟩ := hfields
      cases hok
  | succ depth =>
      obtain ⟨hnodup, hfields⟩ := (encodable_obj fields).mp hfields
      exact scanValue_obj l level hnodup
        (fun field hfield => readsItem_scanOnce hfr l depth (hfields field hfield) _)
        rest

/-- No JSON value starts like this text, and the text starts with no blank. -/
def StartsNoValue (cs : List Char) : Prop :=
  (∀ c ∈ cs.head?, c ∉ ['"', '[', '\x7b', '-'] ∧ c.isDigit = false ∧
    isWhitespace c = false) ∧ scanLiteral cs = none

theorem scanOnce_of_startsNoValue {cs : List Char} (h : StartsNoValue cs)
    (depth : ℕ) : scanOnce dec depth cs = .error .malformed := by
  obtain ⟨hhead, hliteral⟩ := h
  cases cs with
  | nil => cases depth <;> rfl
  | cons c cs =>
      obtain ⟨hc, hdigit, -⟩ := hhead c rfl
      simp only [List.mem_cons, List.not_mem_nil, or_false, not_or] at hc
      obtain ⟨hquote, hbracket, hbrace, hminus⟩ := hc
      have hzero : c ≠ '0' := by
        rintro rfl
        cases hdigit
      have hparts : scanParts (c :: cs) = none := by
        rw [scanParts, scanSign_of_head (by simpa using hminus),
          scanInt_of_head (by simpa using hzero)]
        simp [scanDigits, hdigit]
      have hscalar : scanScalar dec (c :: cs) = .error .malformed := by
        rw [scanScalar, hliteral]
        show scanNumber dec (c :: cs) = _
        rw [scanNumber, hparts]
      cases depth with
      | zero => rw [scanOnce, scanValue_scalar hquote hbracket hbrace, hscalar]
      | succ depth => rw [scanOnce, scanValue_scalar hquote hbracket hbrace, hscalar]

theorem decode_of_startsNoValue {cs : List Char} (h : StartsNoValue cs) :
    decode dec cs = .error .malformed := by
  have hskip : skipSpace cs = cs := by
    cases cs with
    | nil => rfl
    | cons c cs => exact skipSpace_cons (h.1 c rfl).2.2
  rw [decode]
  split_ifs
  · rfl
  · rw [hskip, scanOnce_of_startsNoValue h]
    rfl

/-- **The round trip.** A value is read back from its text in any layout, with
white space around it. -/
theorem decode_encode (hfr : ReadsFloats fr dec) (l : Layout) {x : Json}
    (hx : Encodable dec dec.maxDepth x) (level : ℕ) {before after : List Char}
    (hbefore : ∀ c ∈ before, isWhitespace c = true)
    (hafter : ∀ c ∈ after, isWhitespace c = true) :
    decode dec (before ++ (encode fr l level x ++ after)) = .ok x := by
  have hread := readsItem_scanOnce hfr l dec.maxDepth hx level
  have hends : Ends after := by
    have := ends_append hafter ends_nil
    rwa [List.append_nil] at this
  have hbom : (before ++ (encode fr l level x ++ after)).head? ≠ some '\ufeff' := by
    cases before with
    | nil =>
        obtain ⟨c, cs, hc, -⟩ := hread.head
        have hscan := hread.scan [] ends_nil
        rw [hc] at hscan ⊢
        intro hhead
        rw [Option.some.inj hhead, List.append_nil, scanOnce_bom] at hscan
        cases hscan
    | cons c before =>
        intro hhead
        have hblank := hbefore c List.mem_cons_self
        rw [Option.some.inj hhead] at hblank
        cases hblank
  have hskip : skipSpace (after ++ []) = [] := skipSpace_append hafter
  rw [List.append_nil] at hskip
  rw [decode, if_neg hbom, skipSpace_append hbefore, skipSpace_readsItem hread,
    hread.scan after hends]
  exact if_pos hskip

theorem decode_encode_bare (hfr : ReadsFloats fr dec) (l : Layout) {x : Json}
    (hx : Encodable dec dec.maxDepth x) (level : ℕ) :
    decode dec (encode fr l level x) = .ok x := by
  have hround := decode_encode hfr l hx level (List.forall_mem_nil _)
    (List.forall_mem_nil _)
  rwa [List.nil_append, List.append_nil] at hround

end Values

/-! ## Carriage returns -/

/-- White space without carriage returns. -/
def Layout.NoReturn (l : Layout) : Prop :=
  ∀ level, '\r' ∉ l.opening level ∧ '\r' ∉ l.separator level ∧
    '\r' ∉ l.closing level

theorem noReturn_indented (width : ℕ) : (Layout.indented width).NoReturn := by
  have hindent : ∀ level, '\r' ∉ newlineIndent width level := by
    intro level hmem
    rcases List.mem_cons.mp hmem with hmem | hmem
    · cases hmem
    · cases List.eq_of_mem_replicate hmem
  exact fun level => ⟨hindent _, hindent _, hindent _⟩

section NoReturn

variable {fr : FloatRepr} {l : Layout}

theorem notMem_of_oneLine {cs : List Char} (h : TextFile.OneLine cs) :
    '\r' ∉ cs := fun hmem => (h _ hmem).1 rfl

theorem notMem_intercalate {sep : List Char} {texts : List (List Char)}
    (hsep : '\r' ∉ sep) (h : ∀ text ∈ texts, '\r' ∉ text) :
    '\r' ∉ sep.intercalate texts := by
  induction texts with
  | nil => simp
  | cons text texts ih =>
      obtain ⟨htext, htexts⟩ := List.forall_mem_cons.mp h
      cases texts with
      | nil => simpa using htext
      | cons text' texts =>
          rw [List.intercalate_cons_cons]
          simp [htext, hsep, ih htexts]

theorem notMem_bracketedIn (hl : l.NoReturn) {level : ℕ} {left right : Char}
    (hleft : left ≠ '\r') (hright : right ≠ '\r') {items : List (List Char)}
    (hitems : ∀ item ∈ items, '\r' ∉ item) :
    '\r' ∉ bracketedIn l level left right items := by
  obtain ⟨hopening, hseparator, hclosing⟩ := hl level
  rw [bracketedIn]
  split_ifs
  · simp [Ne.symm hleft, Ne.symm hright]
  · have hbody := notMem_intercalate
      (show '\r' ∉ ',' :: l.separator level by simpa using hseparator) hitems
    simp [Ne.symm hleft, Ne.symm hright, hopening, hclosing, hbody]

mutual

/-- The text of a value has no carriage return but those of its layout. -/
theorem notMem_encode (hl : l.NoReturn) :
    ∀ (level : ℕ) (x : Json), '\r' ∉ encode fr l level x
  | _, .null => by rw [encode]; decide
  | _, .bool b => by rw [encode]; cases b <;> decide
  | _, .int n => by rw [encode]; exact notMem_of_oneLine (oneLine_int n)
  | _, .float x => by rw [encode]; exact notMem_of_oneLine (oneLine_dumpsFloat fr x)
  | _, .str s => by rw [encode]; exact notMem_of_oneLine (oneLine_dumpsStr s)
  | level, .arr xs => by
      rw [encode]
      exact notMem_bracketedIn hl (by decide) (by decide)
        (notMem_encodeItems hl (level + 1) xs)
  | level, .obj fields => by
      rw [encode]
      exact notMem_bracketedIn hl (by decide) (by decide)
        (notMem_encodeFields hl (level + 1) fields)

theorem notMem_encodeItems (hl : l.NoReturn) :
    ∀ (level : ℕ) (xs : List Json),
      ∀ item ∈ encodeItems fr l level xs, '\r' ∉ item
  | _, [] => by simp [encodeItems]
  | level, x :: xs => by
      rw [encodeItems]
      exact List.forall_mem_cons.mpr
        ⟨notMem_encode hl level x, notMem_encodeItems hl level xs⟩

theorem notMem_encodeFields (hl : l.NoReturn) :
    ∀ (level : ℕ) (fields : List (String × Json)),
      ∀ item ∈ encodeFields fr l level fields, '\r' ∉ item
  | _, [] => by simp [encodeFields]
  | level, (key, x) :: fields => by
      have hkey := notMem_of_oneLine (oneLine_dumpsStr key)
      have hx := notMem_encode hl level x
      rw [encodeFields]
      refine List.forall_mem_cons.mpr ⟨?_, notMem_encodeFields hl level fields⟩
      simp [hkey, hx]

end

end NoReturn

end TTSR.Foundation.JsonDecode
