import Mathlib.Data.List.Basic

/-!
# The lines of a text file

A text file read with universal newlines: `\n`, `\r` and `\r\n` end a line, and
the reader sees each of them as `\n`. No other character ends one, unlike in
`str.splitlines`. What is read back from texts without such a character, each
followed by a newline, is these texts (`lines_unlines`).
-/

namespace TTSR.Foundation.TextFile

/-- Lines, each with its newline, with `cur` (reversed) already read of the
first one. Only the last line can lack a newline. -/
def linesFrom : List Char → List Char → List (List Char)
  | [], [] => []
  | cur, [] => [cur.reverse]
  | cur, '\r' :: '\n' :: cs => ('\n' :: cur).reverse :: linesFrom [] cs
  | cur, c :: cs =>
      if c = '\r' ∨ c = '\n' then ('\n' :: cur).reverse :: linesFrom [] cs
      else linesFrom (c :: cur) cs

def lines (cs : List Char) : List (List Char) := linesFrom [] cs

/-- Texts written one after the other, each with a newline. -/
def unlines (texts : List (List Char)) : List Char :=
  texts.flatMap (· ++ ['\n'])

/-- No character of the text ends a line. -/
def OneLine (cs : List Char) : Prop := ∀ c ∈ cs, c ≠ '\r' ∧ c ≠ '\n'

instance (cs : List Char) : Decidable (OneLine cs) :=
  List.decidableBAll (fun c => c ≠ '\r' ∧ c ≠ '\n') cs

namespace OneLine

theorem nil : OneLine [] := fun _ hc => absurd hc List.not_mem_nil

theorem cons {c : Char} {cs : List Char} (hc : c ≠ '\r' ∧ c ≠ '\n')
    (hcs : OneLine cs) : OneLine (c :: cs) :=
  List.forall_mem_cons.mpr ⟨hc, hcs⟩

theorem append {cs ds : List Char} (hcs : OneLine cs) (hds : OneLine ds) :
    OneLine (cs ++ ds) :=
  List.forall_mem_append.mpr ⟨hcs, hds⟩

theorem flatMap {α : Type*} {f : α → List Char} {xs : List α}
    (h : ∀ x ∈ xs, OneLine (f x)) : OneLine (xs.flatMap f) := by
  intro c hc
  obtain ⟨x, hx, hc⟩ := List.mem_flatMap.mp hc
  exact h x hx c hc

theorem flatten {texts : List (List Char)} (h : ∀ cs ∈ texts, OneLine cs) :
    OneLine texts.flatten := by
  intro c hc
  obtain ⟨cs, hcs, hc⟩ := List.mem_flatten.mp hc
  exact h cs hcs c hc

theorem intersperse {sep : List Char} {texts : List (List Char)}
    (hsep : OneLine sep) (h : ∀ cs ∈ texts, OneLine cs) :
    ∀ cs ∈ texts.intersperse sep, OneLine cs := by
  induction texts with
  | nil => simp
  | cons text texts ih =>
      obtain ⟨htext, htexts⟩ := List.forall_mem_cons.mp h
      cases texts with
      | nil => simpa using htext
      | cons text' texts =>
          rw [List.intersperse_cons_cons]
          exact List.forall_mem_cons.mpr
            ⟨htext, List.forall_mem_cons.mpr ⟨hsep, ih htexts⟩⟩

theorem intercalate {sep : List Char} {texts : List (List Char)}
    (hsep : OneLine sep) (h : ∀ cs ∈ texts, OneLine cs) :
    OneLine (sep.intercalate texts) :=
  flatten (intersperse hsep h)

end OneLine

/-- A text without a line end is read into the line that is being read. -/
theorem linesFrom_append {text : List Char} (h : OneLine text)
    (cur rest : List Char) :
    linesFrom cur (text ++ rest) = linesFrom (text.reverse ++ cur) rest := by
  induction text generalizing cur with
  | nil => rfl
  | cons c text ih =>
      obtain ⟨hc, htext⟩ := List.forall_mem_cons.mp h
      have hstep : linesFrom cur (c :: (text ++ rest)) =
          linesFrom (c :: cur) (text ++ rest) := by
        rw [linesFrom, if_neg (not_or.mpr hc)]
        intro cs hcr
        exact absurd hcr hc.1
      rw [List.cons_append, hstep, ih htext]
      simp

theorem linesFrom_newline (cur rest : List Char) :
    linesFrom cur ('\n' :: rest) = (cur.reverse ++ ['\n']) :: lines rest := by
  rw [linesFrom, if_pos (Or.inr rfl), List.reverse_cons, lines]
  intro cs hcr
  cases hcr

/-- Texts without line ends come back one line each, in their order. -/
theorem lines_unlines {texts : List (List Char)}
    (h : ∀ text ∈ texts, OneLine text) :
    lines (unlines texts) = texts.map (· ++ ['\n']) := by
  induction texts with
  | nil => rfl
  | cons text texts ih =>
      obtain ⟨htext, htexts⟩ := List.forall_mem_cons.mp h
      have hunlines : unlines (text :: texts) =
          text ++ '\n' :: unlines texts := by
        simp [unlines]
      rw [hunlines, lines, linesFrom_append htext, linesFrom_newline,
        ih htexts]
      simp

/-! ## The whole text -/

/-- What `read` returns: the lines, one after the other. -/
def readText (cs : List Char) : List Char := (lines cs).flatten

/-- A text without carriage returns is read as it is. -/
theorem readText_eq_self {cs : List Char} (h : '\r' ∉ cs) : readText cs = cs := by
  have hgo : ∀ cur, (linesFrom cur cs).flatten = cur.reverse ++ cs := by
    induction cs with
    | nil =>
        intro cur
        cases cur <;> simp [linesFrom]
    | cons c cs ih =>
        intro cur
        obtain ⟨hc, hcs⟩ := not_or.mp (mt List.mem_cons.mpr h)
        rw [linesFrom]
        · split_ifs with hend
          · obtain rfl := hend.resolve_left (Ne.symm hc)
            rw [List.flatten_cons, ih hcs]
            simp
          · rw [ih hcs]
            simp
        · rintro _ rfl
          exact absurd rfl hc
  exact hgo []

end TTSR.Foundation.TextFile
