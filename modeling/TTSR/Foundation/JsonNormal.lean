import TTSR.Foundation.JsonRoundTrip

/-!
# What is read can be written

Every scanner takes at least one character, so the loops over items never run
out of fuel (`decode_ne_fuel`). What is read has distinct keys and is within the
limits of the interpreter, so it is read back from its own text
(`decode_encode_of_decode`).
-/

namespace TTSR.Foundation.JsonDecode

open TTSR.Foundation.JsonNumber TTSR.Foundation.JsonText
open TTSR.Foundation.Rounding

section Yields

variable {α β : Type} {P : α → Prop} {Q : β → Prop} {m n : ℕ}
  {r : Except DecodeError (α × List Char)}

/-- What was read satisfies `P`, less than `n` characters are left, and if
nothing was read, that was not for want of fuel. -/
def Yields (P : α → Prop) (n : ℕ) :
    Except DecodeError (α × List Char) → Prop
  | .ok (x, rest) => P x ∧ rest.length < n
  | .error exc => exc ≠ .fuel

theorem Yields.mono (h : Yields P m r) (hmn : m ≤ n) : Yields P n r := by
  cases r with
  | error exc => exact h
  | ok read => exact ⟨h.1, h.2.trans_le hmn⟩

theorem Yields.map (h : Yields P n r) {f : α → β} (hf : ∀ x, P x → Q (f x)) :
    Yields Q n (r.map fun (x, rest) => (f x, rest)) := by
  cases r with
  | error exc => exact h
  | ok read => exact ⟨hf _ h.1, h.2⟩

theorem Yields.bind (h : Yields P n r)
    {f : α × List Char → Except DecodeError (β × List Char)}
    (hf : ∀ x rest, P x → rest.length < n → Yields Q n (f (x, rest))) :
    Yields Q n (r >>= f) := by
  cases r with
  | error exc => exact h
  | ok read => exact hf _ _ h.1 h.2

theorem yields_error {exc : DecodeError} (h : exc ≠ .fuel) :
    Yields P n (.error exc) := h

/-- A scanner that takes at least one character and reads only `P`. -/
def Sound (P : α → Prop) (item : Scanner α) : Prop :=
  ∀ cs, Yields P cs.length (item cs)

end Yields

theorem length_skipSpace (cs : List Char) :
    (skipSpace cs).length ≤ cs.length :=
  (List.dropWhile_suffix _).length_le

/-! ## Strings -/

theorem readEscape_ne_fuel (cs : List Char) : readEscape cs ≠ .error .fuel := by
  unfold readEscape
  split
  · split
    · simp
    · split_ifs
      · unfold readLowSurrogate
        split
        · split
          · simp [Except.map]
          · split_ifs <;> simp [Except.map]
        · simp [Except.map]
      · simp
      · simp
  · split <;> simp
  · simp

theorem yields_scanString (cs acc : List Char) (skip : ℕ) :
    Yields (fun _ => True) cs.length (scanString acc skip cs) := by
  induction cs generalizing acc skip with
  | nil => exact yields_error (by decide)
  | cons c cs ih =>
      have hstep : ∀ acc skip, Yields (fun _ => True) (c :: cs).length
          (scanString acc skip cs) :=
        fun acc skip => (ih acc skip).mono (Nat.le_succ _)
      cases skip with
      | succ skip => exact hstep acc skip
      | zero =>
          rw [scanString]
          split_ifs
          · exact ⟨trivial, Nat.lt_succ_self _⟩
          · cases hescape : readEscape cs with
            | error exc =>
                apply yields_error
                rintro rfl
                exact readEscape_ne_fuel cs hescape
            | ok escape => exact hstep _ _
          · exact yields_error (by decide)
          · exact hstep _ _

/-! ## Sequences -/

section Sequences

variable {α : Type} {P : α → Prop} {item : Scanner α} {right : Char}

theorem yields_scanItems (hitem : Sound P item) (fuel : ℕ) :
    ∀ cs : List Char, cs.length < fuel →
      Yields (fun xs => ∀ x ∈ xs, P x) cs.length
        (scanItems item right fuel cs) := by
  induction fuel with
  | zero => exact fun cs hfuel => absurd hfuel (Nat.not_lt_zero _)
  | succ fuel ih =>
      intro cs hfuel
      rw [scanItems]
      refine (hitem cs).bind fun x cs₁ hx hcs₁ => ?_
      have hskip := length_skipSpace cs₁
      dsimp only
      split
      · exact yields_error (by decide)
      · next c cs₂ heq =>
          rw [heq, List.length_cons] at hskip
          have hskip₂ := length_skipSpace cs₂
          split_ifs
          · exact ⟨by simpa using hx, by omega⟩
          · have hrest := (ih (skipSpace cs₂) (by omega)).mono
              (show (skipSpace cs₂).length ≤ cs.length by omega)
            exact hrest.bind fun xs rest hxs hlength =>
              ⟨List.forall_mem_cons.mpr ⟨hx, hxs⟩, hlength⟩
          · exact yields_error (by decide)

/-- What follows an opening bracket, counted with the bracket. -/
theorem yields_scanBracketed (hitem : Sound P item) (cs : List Char) :
    Yields (fun xs => ∀ x ∈ xs, P x) (cs.length + 1)
      (scanBracketed item right cs) := by
  have hskip := length_skipSpace cs
  rw [scanBracketed]
  split_ifs
  · refine ⟨by simp, ?_⟩
    rw [List.length_tail]
    omega
  · exact (yields_scanItems hitem _ _ (Nat.lt_succ_self _)).mono (by omega)

end Sequences

/-! ## Values -/

section Values

variable {dec : Decoder} {P : Json → Prop}

theorem sound_scanField {value : Scanner Json} (hvalue : Sound P value) :
    Sound (fun field => P field.2) (scanField value) := by
  intro cs
  cases cs with
  | nil => exact yields_error (by decide)
  | cons c cs =>
      rw [scanField]
      split_ifs
      · refine ((yields_scanString cs [] 0).mono (Nat.le_succ _)).bind
          fun key cs₁ _ hcs₁ => ?_
        have hskip := length_skipSpace cs₁
        dsimp only
        cases hcolon : skipSpace cs₁ with
        | nil => exact yields_error (by decide)
        | cons c' cs₂ =>
            rw [hcolon, List.length_cons] at hskip
            have hskip₂ := length_skipSpace cs₂
            rw [scanColon]
            split_ifs
            · exact ((hvalue (skipSpace cs₂)).mono (by omega)).map fun x hx => hx
            · exact yields_error (by decide)
      · exact yields_error (by decide)

/-- A dictionary filled with fields has distinct keys and only their values. -/
theorem ofFields_sound {fields : List (String × Json)}
    (h : ∀ field ∈ fields, P field.2) :
    ((ofFields fields).map Prod.fst).Nodup ∧
      ∀ field ∈ ofFields fields, P field.2 := by
  have hset : ∀ {key : String} {x : Json} {es : List (String × Json)}, P x →
      (∀ e ∈ es, P e.2) → ∀ e ∈ Dict.setEntries key x es, P e.2 := by
    intro key x es hx hes
    induction es with
    | nil => simpa [Dict.setEntries] using hx
    | cons e es ih =>
        obtain ⟨he, hes⟩ := List.forall_mem_cons.mp hes
        rw [Dict.setEntries]
        split_ifs
        · exact List.forall_mem_cons.mpr ⟨hx, hes⟩
        · exact List.forall_mem_cons.mpr ⟨he, ih hes⟩
  have hgo : ∀ (fields es : List (String × Json)),
      (∀ field ∈ fields, P field.2) → (es.map Prod.fst).Nodup →
      (∀ e ∈ es, P e.2) →
      ((fields.foldl (fun es field => Dict.setEntries field.1 field.2 es) es).map
        Prod.fst).Nodup ∧
      ∀ e ∈ fields.foldl (fun es field => Dict.setEntries field.1 field.2 es) es,
        P e.2 := by
    intro fields
    induction fields with
    | nil => exact fun es _ hnodup hes => ⟨hnodup, hes⟩
    | cons field fields ih =>
        intro es hfields hnodup hes
        obtain ⟨hfield, hfields⟩ := List.forall_mem_cons.mp hfields
        exact ih _ hfields (Dict.nodup_setEntries hnodup) (hset hfield hes)
  exact hgo fields [] h List.nodup_nil (by simp)

/-- `float` on the text of a number gives a double or an infinity. -/
def ParsesDoubles (dec : Decoder) : Prop :=
  ∀ p : Parts, p.IsNumeral → ∀ q, dec.parseFloat p.text = .fin q → IsDouble q

theorem yields_scanLiteral {nestedOk : Option (Json → Prop)} {cs : List Char}
    {x : Json} {rest : List Char} (h : scanLiteral cs = some (x, rest)) :
    EncodableIn dec nestedOk x ∧ rest.length < cs.length := by
  rw [scanLiteral] at h
  obtain ⟨lit, hlit, hscan⟩ := List.exists_of_findSome?_eq_some h
  split_ifs at hscan with hprefix
  obtain ⟨rfl, rfl⟩ := Prod.mk.inj (Option.some.inj hscan)
  have hle := (List.isPrefixOf_iff_prefix.mp hprefix).length_le
  have hpos : 0 < lit.1.toList.length ∧ EncodableIn dec nestedOk lit.2 := by
    simp only [literals, List.mem_cons, List.not_mem_nil, or_false] at hlit
    rcases hlit with rfl | rfl | rfl | rfl | rfl | rfl
    all_goals exact ⟨by decide, trivial⟩
  refine ⟨hpos.2, ?_⟩
  rw [List.length_drop]
  omega

theorem sound_scanNumber (hdec : ParsesDoubles dec)
    (nestedOk : Option (Json → Prop)) :
    Sound (EncodableIn dec nestedOk) (scanNumber dec) := by
  intro cs
  rw [scanNumber]
  cases hscan : scanParts cs with
  | none => exact yields_error (by decide)
  | some read =>
      obtain ⟨p, rest⟩ := read
      obtain ⟨hp, rfl⟩ := scanParts_sound hscan
      have hlength : rest.length < (p.text ++ rest).length := by
        have := List.length_pos_of_ne_nil (digits_int hp).1
        simp only [Parts.text, List.length_append]
        omega
      dsimp only
      split_ifs with hfloat hdigits
      · refine ⟨?_, hlength⟩
        cases hparse : dec.parseFloat p.text with
        | fin q => exact hdec p hp q hparse
        | inf neg => trivial
        | nan => trivial
      · exact yields_error (by decide)
      · exact ⟨(length_toDigits_intValue hp).trans (Nat.not_lt.mp hdigits), hlength⟩

theorem sound_scanValue (hdec : ParsesDoubles dec)
    {nested : Option (Scanner Json)} {nestedOk : Option (Json → Prop)}
    (hnested : ∀ scan, nested = some scan →
      ∃ ok, nestedOk = some ok ∧ Sound ok scan) :
    Sound (EncodableIn dec nestedOk) (scanValue dec nested) := by
  intro cs
  cases cs with
  | nil => exact yields_error (by decide)
  | cons c cs =>
      rw [scanValue.eq_def]
      dsimp only
      split_ifs
      · exact ((yields_scanString cs [] 0).mono (Nat.le_succ _)).map
          fun s _ => trivial
      · cases nested with
        | none => exact yields_error (by decide)
        | some scan =>
            obtain ⟨ok, hok, hscan⟩ := hnested scan rfl
            exact (yields_scanBracketed hscan cs).map fun xs hxs => ⟨ok, hok, hxs⟩
      · cases nested with
        | none => exact yields_error (by decide)
        | some scan =>
            obtain ⟨ok, hok, hscan⟩ := hnested scan rfl
            have hfields : Yields _ (cs.length + 1)
                (scanBracketed (scanField scan) '\x7d' cs) :=
              yields_scanBracketed (sound_scanField hscan) cs
            exact hfields.map (f := fun fields => Json.obj (ofFields fields))
              fun fields hfields => ⟨ok, hok, ofFields_sound hfields⟩
      · rw [scanScalar]
        cases hliteral : scanLiteral (c :: cs) with
        | some read => exact yields_scanLiteral hliteral
        | none => exact sound_scanNumber hdec nestedOk (c :: cs)

theorem sound_scanOnce (hdec : ParsesDoubles dec) (depth : ℕ) :
    Sound (Encodable dec depth) (scanOnce dec depth) := by
  induction depth with
  | zero => exact sound_scanValue hdec fun scan hscan => by cases hscan
  | succ depth ih =>
      refine sound_scanValue hdec fun scan hscan => ?_
      obtain rfl := Option.some.inj hscan
      exact ⟨_, rfl, ih⟩

/-- What is read is within the limits, with distinct keys. -/
theorem encodable_of_decode (hdec : ParsesDoubles dec) {cs : List Char}
    {x : Json} (h : decode dec cs = .ok x) : Encodable dec dec.maxDepth x := by
  rw [decode] at h
  split_ifs at h
  obtain ⟨⟨y, rest⟩, hscan, h⟩ := bind_eq_ok_iff.mp h
  dsimp only at h
  split_ifs at h
  obtain rfl := Except.ok.inj h
  have hyields := sound_scanOnce hdec dec.maxDepth (skipSpace cs)
  rw [hscan] at hyields
  exact hyields.1

/-- The loops over items are never short of fuel. -/
theorem decode_ne_fuel (hdec : ParsesDoubles dec) (cs : List Char) :
    decode dec cs ≠ .error .fuel := by
  have hyields := sound_scanOnce hdec dec.maxDepth (skipSpace cs)
  rw [decode]
  split_ifs
  · simp
  · cases hscan : scanOnce dec dec.maxDepth (skipSpace cs) with
    | error exc =>
        rw [hscan] at hyields
        rintro ⟨⟩
        exact hyields rfl
    | ok read =>
        simp only [bind, Except.bind]
        split_ifs <;> simp

/-- **Rewriting keeps the meaning.** What was read from any text is read again
from the text it is written as. -/
theorem decode_encode_of_decode {fr : FloatRepr} (hfr : ReadsFloats fr dec)
    (hdec : ParsesDoubles dec) (l : Layout) {cs : List Char} {x : Json}
    (h : decode dec cs = .ok x) (level : ℕ) :
    decode dec (encode fr l level x) = .ok x :=
  decode_encode_bare hfr l (encodable_of_decode hdec h) level

end Values

end TTSR.Foundation.JsonDecode
