import Mathlib.Data.List.TakeWhile
import TTSR.Foundation.Value

/-!
# The number grammar of JSON texts

A number is a sign, an integer part without leading zeros, and maybe a fraction
and an exponent. The scanner takes the longest number at the start of a text:
a point or an exponent mark without a digit after it is left where it is. What
it takes from a numeral followed by something else is that numeral
(`scanParts_append`).
-/

namespace TTSR.Foundation.JsonNumber

/-- A run of decimal digits, at least one. -/
def Digits (cs : List Char) : Prop := cs ≠ [] ∧ ∀ c ∈ cs, c.isDigit = true

instance (cs : List Char) : Decidable (Digits cs) :=
  haveI : Decidable (∀ c ∈ cs, c.isDigit = true) := List.decidableBAll _ cs
  inferInstanceAs (Decidable (_ ∧ _))

/-- The parts of a number, each as it is written. -/
structure Parts where
  sign : List Char
  int : List Char
  frac : List Char
  exp : List Char
deriving DecidableEq

namespace Parts

def text (p : Parts) : List Char := p.sign ++ (p.int ++ (p.frac ++ p.exp))

/-- A number with a fraction or an exponent is a float. -/
def isFloat (p : Parts) : Bool := !p.frac.isEmpty || !p.exp.isEmpty

/-- The value of a number without fraction and exponent. -/
def intValue (p : Parts) : ℤ :=
  if p.sign = [] then Nat.ofDigitChars 10 p.int 0
  else -(Nat.ofDigitChars 10 p.int 0 : ℤ)

end Parts

/-! ## The scanner -/

def scanSign : List Char → List Char × List Char
  | '-' :: cs => (['-'], cs)
  | cs => ([], cs)

def scanDigits (cs : List Char) : List Char × List Char :=
  (cs.takeWhile Char.isDigit, cs.dropWhile Char.isDigit)

/-- A number that starts with a zero is only that zero. -/
def scanInt : List Char → List Char × List Char
  | '0' :: cs => (['0'], cs)
  | cs => scanDigits cs

def scanFrac : List Char → List Char × List Char
  | '.' :: cs =>
      if (scanDigits cs).1 = [] then ([], '.' :: cs)
      else ('.' :: (scanDigits cs).1, (scanDigits cs).2)
  | cs => ([], cs)

def scanExpSign : List Char → List Char × List Char
  | '+' :: cs => (['+'], cs)
  | cs => scanSign cs

def scanExp : List Char → List Char × List Char
  | [] => ([], [])
  | c :: cs =>
      let sign := scanExpSign cs
      let digits := scanDigits sign.2
      if (c = 'e' ∨ c = 'E') ∧ digits.1 ≠ [] then
        (c :: (sign.1 ++ digits.1), digits.2)
      else ([], c :: cs)

/-- The longest number at the start of a text. -/
def scanParts (cs : List Char) : Option (Parts × List Char) :=
  let sign := scanSign cs
  let int := scanInt sign.2
  let frac := scanFrac int.2
  let exp := scanExp frac.2
  if int.1 = [] then none
  else some (⟨sign.1, int.1, frac.1, exp.1⟩, exp.2)

/-! ## Numerals -/

/-- The parts form a number. -/
structure Parts.IsNumeral (p : Parts) : Prop where
  sign : p.sign = [] ∨ p.sign = ['-']
  int : p.int = ['0'] ∨ Digits p.int ∧ p.int.head? ≠ some '0'
  frac : p.frac = [] ∨ ∃ ds, p.frac = '.' :: ds ∧ Digits ds
  exp : p.exp = [] ∨ ∃ c s ds, p.exp = c :: (s ++ ds) ∧
    (c = 'e' ∨ c = 'E') ∧ (s = [] ∨ s = ['+'] ∨ s = ['-']) ∧ Digits ds

/-- What follows a number does not continue it. -/
def Ends (rest : List Char) : Prop :=
  ∀ c ∈ rest.head?, c.isDigit = false ∧ c ≠ '.' ∧ c ≠ 'e' ∧ c ≠ 'E'

theorem ends_nil : Ends [] := by simp [Ends]

theorem ends_cons {c : Char} {cs : List Char} :
    Ends (c :: cs) ↔ c.isDigit = false ∧ c ≠ '.' ∧ c ≠ 'e' ∧ c ≠ 'E' := by
  simp [Ends]

section Scanning

variable {ds rest : List Char}

/-- The scanner stops at the end of a run of digits. -/
theorem scanDigits_append (hds : ∀ c ∈ ds, c.isDigit = true)
    (hrest : ∀ c ∈ rest.head?, c.isDigit = false) :
    scanDigits (ds ++ rest) = (ds, rest) := by
  rw [scanDigits, List.takeWhile_append_of_pos hds,
    List.dropWhile_append_of_pos hds]
  cases rest with
  | nil => simp
  | cons c cs =>
      have hc : c.isDigit = false := hrest c rfl
      rw [List.takeWhile_cons_of_neg (by simp [hc]),
        List.dropWhile_cons_of_neg (by simp [hc]), List.append_nil]

theorem scanSign_of_head (h : rest.head? ≠ some '-') :
    scanSign rest = ([], rest) := by
  unfold scanSign
  split
  · exact absurd rfl h
  · rfl

theorem scanInt_of_head (h : rest.head? ≠ some '0') :
    scanInt rest = scanDigits rest := by
  unfold scanInt
  split
  · exact absurd rfl h
  · rfl

theorem scanFrac_of_head (h : rest.head? ≠ some '.') :
    scanFrac rest = ([], rest) := by
  unfold scanFrac
  split
  · exact absurd rfl h
  · rfl

theorem scanExp_of_head (h : ∀ c ∈ rest.head?, c ≠ 'e' ∧ c ≠ 'E') :
    scanExp rest = ([], rest) := by
  cases rest with
  | nil => rfl
  | cons c cs =>
      obtain ⟨hlow, hupp⟩ := h c rfl
      simp [scanExp, hlow, hupp]

/-- A run of digits starts with a digit. -/
theorem Digits.exists_cons (h : Digits ds) :
    ∃ d ds', ds = d :: ds' ∧ d.isDigit = true := by
  obtain ⟨d, ds', rfl⟩ := List.exists_cons_of_ne_nil h.1
  exact ⟨d, ds', rfl, h.2 d List.mem_cons_self⟩

theorem not_digit_of_head {c : Char} (hds : Digits ds) (hc : c.isDigit = false) :
    (ds ++ rest).head? ≠ some c := by
  obtain ⟨d, ds', rfl, hd⟩ := hds.exists_cons
  rintro h
  rw [Option.some.inj h, hc] at hd
  cases hd

theorem scanSign_append {sign : List Char} (hsign : sign = [] ∨ sign = ['-'])
    (h : rest.head? ≠ some '-') : scanSign (sign ++ rest) = (sign, rest) := by
  rcases hsign with rfl | rfl
  · exact scanSign_of_head h
  · rfl

theorem scanInt_append {int : List Char}
    (hint : int = ['0'] ∨ Digits int ∧ int.head? ≠ some '0')
    (h : ∀ c ∈ rest.head?, c.isDigit = false) :
    scanInt (int ++ rest) = (int, rest) := by
  rcases hint with rfl | ⟨hint, hzero⟩
  · rfl
  · have hhead : (int ++ rest).head? ≠ some '0' := by
      obtain ⟨d, ds', rfl, -⟩ := hint.exists_cons
      exact hzero
    rw [scanInt_of_head hhead, scanDigits_append hint.2 h]

theorem scanFrac_append {frac : List Char}
    (hfrac : frac = [] ∨ ∃ ds, frac = '.' :: ds ∧ Digits ds)
    (hpoint : rest.head? ≠ some '.')
    (h : ∀ c ∈ rest.head?, c.isDigit = false) :
    scanFrac (frac ++ rest) = (frac, rest) := by
  rcases hfrac with rfl | ⟨ds, rfl, hds⟩
  · exact scanFrac_of_head hpoint
  · rw [List.cons_append, scanFrac, scanDigits_append hds.2 h, if_neg hds.1]

theorem scanExpSign_append {s : List Char}
    (hs : s = [] ∨ s = ['+'] ∨ s = ['-']) (hds : Digits ds) :
    scanExpSign (s ++ (ds ++ rest)) = (s, ds ++ rest) := by
  have hminus : (ds ++ rest).head? ≠ some '-' := not_digit_of_head hds (by decide)
  have hplus : (ds ++ rest).head? ≠ some '+' := not_digit_of_head hds (by decide)
  rcases hs with rfl | rfl | rfl
  · rw [List.nil_append, scanExpSign]
    · exact scanSign_of_head hminus
    · intro cs hcs
      exact hplus (by rw [hcs]; rfl)
  · rfl
  · rfl

theorem scanExp_append {exp : List Char}
    (hexp : exp = [] ∨ ∃ c s ds, exp = c :: (s ++ ds) ∧
      (c = 'e' ∨ c = 'E') ∧ (s = [] ∨ s = ['+'] ∨ s = ['-']) ∧ Digits ds)
    (h : Ends rest) : scanExp (exp ++ rest) = (exp, rest) := by
  rcases hexp with rfl | ⟨c, s, ds, rfl, hc, hs, hds⟩
  · exact scanExp_of_head fun c hc => ⟨(h c hc).2.2.1, (h c hc).2.2.2⟩
  · have hdigits := scanDigits_append hds.2 fun d hd => (h d hd).1
    rw [List.cons_append, List.append_assoc, scanExp,
      scanExpSign_append hs hds, hdigits, if_pos ⟨hc, hds.1⟩]

end Scanning

/-! ## Scanning a numeral -/

variable {p : Parts} {rest : List Char}

/-- The first character of what follows the integer part. -/
theorem head_frac_exp (hp : p.IsNumeral) (h : Ends rest) :
    ∀ c ∈ (p.frac ++ (p.exp ++ rest)).head?, c.isDigit = false := by
  rcases hp.frac with hfrac | ⟨ds, hfrac, -⟩
  · rcases hp.exp with hexp | ⟨c, s, ds, hexp, hc, -⟩
    · rw [hfrac, hexp]
      exact fun c hc => (h c hc).1
    · rw [hfrac, hexp]
      rintro _ ⟨⟩
      rcases hc with rfl | rfl <;> decide
  · rw [hfrac]
    rintro _ ⟨⟩
    decide

/-- The first character of what follows the fraction. -/
theorem head_exp (hp : p.IsNumeral) (h : Ends rest) :
    ∀ c ∈ (p.exp ++ rest).head?, c.isDigit = false ∧ c ≠ '.' := by
  rcases hp.exp with hexp | ⟨c, s, ds, hexp, hc, -⟩
  · rw [hexp]
    exact fun c hc => ⟨(h c hc).1, (h c hc).2.1⟩
  · rw [hexp]
    rintro _ ⟨⟩
    rcases hc with rfl | rfl <;> decide

theorem digits_int (hp : p.IsNumeral) : Digits p.int := by
  rcases hp.int with hint | ⟨hint, -⟩
  · rw [hint]
    decide
  · exact hint

/-- A numeral is scanned as it was written, whatever follows that does not
continue it. -/
theorem scanParts_append (hp : p.IsNumeral) (h : Ends rest) :
    scanParts (p.text ++ rest) = some (p, rest) := by
  have hminus : (p.int ++ (p.frac ++ (p.exp ++ rest))).head? ≠ some '-' :=
    not_digit_of_head (digits_int hp) (by decide)
  have hpoint : (p.exp ++ rest).head? ≠ some '.' := fun hhead =>
    (head_exp hp h '.' hhead).2 rfl
  have htext : p.text ++ rest =
      p.sign ++ (p.int ++ (p.frac ++ (p.exp ++ rest))) := by
    simp [Parts.text]
  rw [scanParts, htext, scanSign_append hp.sign hminus,
    scanInt_append hp.int (head_frac_exp hp h),
    scanFrac_append hp.frac hpoint fun c hc => (head_exp hp h c hc).1,
    scanExp_append hp.exp h, if_neg (digits_int hp).1]

/-! ## What was scanned -/

theorem scanSign_sound (cs : List Char) :
    ((scanSign cs).1 = [] ∨ (scanSign cs).1 = ['-']) ∧
      (scanSign cs).1 ++ (scanSign cs).2 = cs := by
  unfold scanSign
  split
  · exact ⟨Or.inr rfl, rfl⟩
  · exact ⟨Or.inl rfl, rfl⟩

theorem scanDigits_sound (cs : List Char) :
    ((scanDigits cs).1 = [] ∨ Digits (scanDigits cs).1) ∧
      (scanDigits cs).1 ++ (scanDigits cs).2 = cs := by
  refine ⟨?_, List.takeWhile_append_dropWhile⟩
  rcases eq_or_ne (scanDigits cs).1 [] with hnil | hne
  · exact Or.inl hnil
  · exact Or.inr ⟨hne, fun c hc => List.mem_takeWhile_imp hc⟩

theorem scanInt_sound {cs : List Char} (hne : (scanInt cs).1 ≠ []) :
    ((scanInt cs).1 = ['0'] ∨
      Digits (scanInt cs).1 ∧ (scanInt cs).1.head? ≠ some '0') ∧
      (scanInt cs).1 ++ (scanInt cs).2 = cs := by
  unfold scanInt at hne ⊢
  split
  · exact ⟨Or.inl rfl, rfl⟩
  · next hzero =>
      obtain ⟨hdigits, happend⟩ := scanDigits_sound cs
      refine ⟨Or.inr ⟨hdigits.resolve_left ?_, ?_⟩, happend⟩
      · simpa using hne
      · intro hhead
        obtain ⟨ds, hds⟩ := List.head?_eq_some_iff.mp hhead
        rw [hds, List.cons_append] at happend
        exact hzero _ happend.symm

theorem scanFrac_sound (cs : List Char) :
    ((scanFrac cs).1 = [] ∨ ∃ ds, (scanFrac cs).1 = '.' :: ds ∧ Digits ds) ∧
      (scanFrac cs).1 ++ (scanFrac cs).2 = cs := by
  unfold scanFrac
  split
  · next cs =>
      obtain ⟨hdigits, happend⟩ := scanDigits_sound cs
      split_ifs with hnil
      · exact ⟨Or.inl rfl, rfl⟩
      · exact ⟨Or.inr ⟨_, rfl, hdigits.resolve_left hnil⟩,
          congrArg ('.' :: ·) happend⟩
  · exact ⟨Or.inl rfl, rfl⟩

theorem scanExpSign_sound (cs : List Char) :
    ((scanExpSign cs).1 = [] ∨ (scanExpSign cs).1 = ['+'] ∨
      (scanExpSign cs).1 = ['-']) ∧
      (scanExpSign cs).1 ++ (scanExpSign cs).2 = cs := by
  unfold scanExpSign
  split
  · exact ⟨Or.inr (Or.inl rfl), rfl⟩
  · obtain ⟨hsign, happend⟩ := scanSign_sound cs
    exact ⟨hsign.imp_right Or.inr, happend⟩

theorem scanExp_sound (cs : List Char) :
    ((scanExp cs).1 = [] ∨ ∃ c s ds, (scanExp cs).1 = c :: (s ++ ds) ∧
      (c = 'e' ∨ c = 'E') ∧ (s = [] ∨ s = ['+'] ∨ s = ['-']) ∧ Digits ds) ∧
      (scanExp cs).1 ++ (scanExp cs).2 = cs := by
  cases cs with
  | nil => exact ⟨Or.inl rfl, rfl⟩
  | cons c cs =>
      obtain ⟨hsign, hsignAppend⟩ := scanExpSign_sound cs
      obtain ⟨hdigits, happend⟩ := scanDigits_sound (scanExpSign cs).2
      rw [scanExp]
      split_ifs with hexp
      · refine ⟨Or.inr ⟨c, _, _, rfl, hexp.1, hsign,
          hdigits.resolve_left hexp.2⟩, ?_⟩
        rw [List.cons_append, List.append_assoc, happend, hsignAppend]
      · exact ⟨Or.inl rfl, rfl⟩

/-- What is scanned is a numeral, and it is the start of the text. -/
theorem scanParts_sound {cs : List Char} (h : scanParts cs = some (p, rest)) :
    p.IsNumeral ∧ p.text ++ rest = cs := by
  obtain ⟨hsign, hsignAppend⟩ := scanSign_sound cs
  obtain ⟨hfrac, hfracAppend⟩ := scanFrac_sound (scanInt (scanSign cs).2).2
  obtain ⟨hexp, hexpAppend⟩ :=
    scanExp_sound (scanFrac (scanInt (scanSign cs).2).2).2
  rw [scanParts] at h
  split_ifs at h with hint
  obtain ⟨hint, hintAppend⟩ := scanInt_sound hint
  obtain ⟨rfl, rfl⟩ := Prod.mk.inj (Option.some.inj h)
  refine ⟨⟨hsign, hint, hfrac, hexp⟩, ?_⟩
  rw [Parts.text]
  simp only [List.append_assoc]
  rw [hexpAppend, hfracAppend, hintAppend, hsignAppend]

/-! ## Integers -/

/-- `str` of an integer. -/
def intParts (n : ℤ) : Parts where
  sign := if n < 0 then ['-'] else []
  int := Nat.toDigits 10 n.natAbs
  frac := []
  exp := []

theorem text_intParts (n : ℤ) : (intParts n).text = (toString n).toList := by
  rw [Int.toString_eq_repr]
  cases n with
  | ofNat n => simp [intParts, Parts.text, Int.repr]
  | negSucc n => simp [intParts, Parts.text, Int.repr]

theorem digits_toDigits (n : ℕ) : Digits (Nat.toDigits 10 n) :=
  ⟨Nat.toDigits_ne_nil, fun _ hc =>
    Nat.isDigit_of_mem_toDigits (by decide) (by decide) hc⟩

theorem head_toDigits (n : ℕ) (hn : 0 < n) :
    (Nat.toDigits 10 n).head? ≠ some '0' := by
  induction n using Nat.strongRecOn with
  | ind n ih =>
      rcases Nat.lt_or_ge n 10 with hlt | hge
      · rw [Nat.toDigits_of_lt_base hlt]
        have hdigit : ∀ n < 10, 0 < n → [Nat.digitChar n].head? ≠ some '0' := by
          decide
        exact hdigit n hlt hn
      · rw [Nat.toDigits_of_base_le (by decide) hge,
          List.head?_append_of_ne_nil _ Nat.toDigits_ne_nil]
        exact ih (n / 10) (by omega) (by omega)

theorem isNumeral_intParts (n : ℤ) : (intParts n).IsNumeral where
  sign := by
    unfold intParts
    split_ifs <;> simp
  int := by
    rcases Nat.eq_zero_or_pos n.natAbs with hzero | hpos
    · left
      rw [intParts, hzero]
      rfl
    · exact Or.inr ⟨digits_toDigits _, head_toDigits _ hpos⟩
  frac := Or.inl rfl
  exp := Or.inl rfl

theorem intValue_intParts (n : ℤ) : (intParts n).intValue = n := by
  rw [Parts.intValue, intParts, Nat.ofDigitChars_ten_toDigits]
  split_ifs with hneg hsign
  · simp at hsign
  · omega
  · omega
  · contradiction

theorem ofDigitChars_lt {ds : List Char} (h : ∀ c ∈ ds, c.isDigit = true)
    (n : ℕ) : Nat.ofDigitChars 10 ds n < 10 ^ ds.length * (n + 1) := by
  induction ds generalizing n with
  | nil => simp
  | cons c ds ih =>
      obtain ⟨hc, hds⟩ := List.forall_mem_cons.mp h
      have hdigit : c.toNat - '0'.toNat ≤ 9 := by
        have hle : c.toNat ≤ '9'.toNat := by
          simp only [Char.isDigit, Bool.and_eq_true, decide_eq_true_eq] at hc
          exact hc.2
        have hnine : '9'.toNat - '0'.toNat = 9 := by decide
        omega
      rw [Nat.ofDigitChars_cons, List.length_cons, pow_succ, mul_assoc]
      refine (ih hds _).trans_le (Nat.mul_le_mul_left _ ?_)
      omega

/-- Without its leading zeros and sign, an integer has no more digits. -/
theorem length_toDigits_intValue {p : Parts} (hp : p.IsNumeral) :
    (Nat.toDigits 10 p.intValue.natAbs).length ≤ p.int.length := by
  have hint := digits_int hp
  have hvalue : p.intValue.natAbs = Nat.ofDigitChars 10 p.int 0 := by
    rw [Parts.intValue]
    split_ifs <;> simp
  have hlt := ofDigitChars_lt hint.2 0
  rw [Nat.length_toDigits_le_iff (by decide) (List.length_pos_of_ne_nil hint.1),
    hvalue]
  simpa using hlt

end TTSR.Foundation.JsonNumber
