import TTSR.Foundation.Brackets
import TTSR.Reward.FinalAnswer

/-!
# The last boxed answer

What `extract_final_answer` is for: the content of the group that the last
`\boxed{` of a response opens, however braces nest in it. The flat pattern of
the source finds it exactly when there is no brace inside; otherwise an earlier
flat group, or a line of the raw text, is voted for in its place.
-/

namespace TTSR.Reward

open TTSR.Foundation.Text TTSR.Foundation.Brackets

def boxOpening : List Char := ['\\', 'b', 'o', 'x', 'e', 'd', '{']

/-- The content of the group that the last `\boxed{` opens, up to its matching
brace. -/
def lastBoxed (text : String) : Option (List Char) :=
  (lastAfter boxOpening text.toList).bind (untilClosed '{' '}' 0)

example : lastBoxed
    "\\boxed\x7b1\x7d, so \\boxed\x7b\\frac\x7b1\x7d\x7b2\x7d \x7d." =
    some "\\frac\x7b1\x7d\x7b2\x7d ".toList := by decide +kernel

/-- The captures of `ANSWER_RE` in the stripped text. -/
def answerLines (text : String) : List (List Char) :=
  findall matchAnswer (stripChars text.toList)

/-- The stripped nonblank lines of the stripped text. -/
def nonblankLines (text : String) : List (List Char) :=
  ((splitlines (stripChars text.toList)).map stripChars).filter (· ≠ [])

/-- No flat group anywhere, and the line that is read in place of a box happens
to be `content`. -/
def LineIsBox (text : String) (content : List Char) : Prop :=
  findall matchBoxed (stripChars text.toList) = [] ∧
    match (answerLines text).getLast? with
    | some line => stripChars line = stripChars content
    | none => ∃ line, (nonblankLines text).getLast? = some line ∧
        line.take 256 = stripChars content

/-! ## The pattern of the source -/

theorem matchBoxed_eq_some_iff {cs a : List Char} {len : ℕ} :
    matchBoxed cs = some (a, len) ↔
      Flat '{' '}' a ∧ len = 7 + a.length + 1 ∧
        ∃ post, cs = boxOpening ++ (a ++ '}' :: post) := by
  constructor
  · intro h
    rw [matchBoxed] at h
    split at h
    · next hopen =>
        dsimp only at h
        split at h
        · next post hpost =>
            obtain ⟨rfl, rfl⟩ := Prod.mk.inj (Option.some.inj h)
            refine ⟨?_, rfl, post, ?_⟩
            · intro x hx
              simpa using List.mem_takeWhile_imp hx
            · have hbody := List.prefix_iff_eq_append.mp
                (List.takeWhile_prefix (fun c => c != '{' && c != '}')
                  (l := cs.drop 7))
              rw [hpost] at hbody
              rw [hbody, boxOpening, ← hopen, List.take_append_drop]
        · cases h
    · cases h
  · rintro ⟨hflat, rfl, post, rfl⟩
    have hcontent : (a ++ '}' :: post).takeWhile
        (fun c => c != '{' && c != '}') = a := by
      rw [List.takeWhile_append_of_pos]
      · simp
      · intro x hx
        simpa using hflat x hx
    simp [matchBoxed, boxOpening, hcontent]

theorem matchBoxed_of_flat {a : List Char} (h : Flat '{' '}' a)
    (post : List Char) :
    matchBoxed (boxOpening ++ (a ++ '}' :: post)) =
      some (a, 7 + a.length + 1) :=
  matchBoxed_eq_some_iff.mpr ⟨h, rfl, post, rfl⟩

/-- A match that starts before a `\boxed{` ends before it. -/
theorem length_le_of_matchBoxed {q rest a : List Char} {len : ℕ} (hq : q ≠ [])
    (h : matchBoxed (q ++ (boxOpening ++ rest)) = some (a, len)) :
    len ≤ q.length := by
  obtain ⟨hflat, rfl, post, heq⟩ := matchBoxed_eq_some_iff.mp h
  have heq : q ++ (boxOpening ++ rest) =
      (boxOpening ++ (a ++ ['}'])) ++ post := by simpa using heq
  have hlength : (boxOpening ++ (a ++ ['}'])).length = 7 + a.length + 1 := by
    simp [boxOpening]; omega
  rcases List.append_eq_append_iff.mp heq with
    ⟨beyond, hmatch, hover⟩ | ⟨more, hmore, -⟩
  · rcases List.append_eq_append_iff.mp hover with ⟨x, hx, -⟩ | ⟨x, hx, -⟩
    · -- the group would hold the opening brace of the later box
      rw [hx] at hmatch
      have ha : a.count '{' = 0 :=
        List.count_eq_zero.mpr fun hmem => (hflat _ hmem).1 rfl
      have hcount := congrArg (List.count '{') hmatch
      have hnone : q.count '{' = 0 := by
        simp [boxOpening, ha] at hcount
        omega
      have hq' : ∀ c ∈ q, (c != '{') = true := by
        intro c hc
        rw [bne_iff_ne]
        rintro rfl
        exact List.count_eq_zero.mp hnone hc
      have hfirst :=
        congrArg (fun cs => (cs.takeWhile (· != '{')).length) hmatch
      simp [boxOpening, List.takeWhile_append_of_pos hq'] at hfirst
      exact absurd hfirst hq
    · -- the match would end in `\boxed`
      rcases List.eq_nil_or_concat beyond with rfl | ⟨front, last, rfl⟩
      · rw [← hlength, hmatch, List.append_nil]
      · have hlast := congrArg List.getLast? hmatch
        simp at hlast
        have hmem : '}' ∈ boxOpening := by rw [hx, ← hlast]; simp
        exact absurd hmem (by decide)
  · rw [hmore, List.length_append, hlength]
    exact Nat.le_add_right _ _

theorem flat_of_mem_findall {a cs : List Char}
    (h : a ∈ findall matchBoxed cs) : Flat '{' '}' a := by
  obtain ⟨q, len, -, hm⟩ := exists_match_of_mem_findallFrom h
  exact (matchBoxed_eq_some_iff.mp hm).1

/-! ## The last box -/

/-- `\boxed{` opens once in what starts with it. -/
def OpensOnce (rest : List Char) : Prop :=
  ∀ q, q <:+ (boxOpening ++ rest).tail → ¬ boxOpening <+: q

theorem OpensOnce.of_append {rest more : List Char}
    (h : OpensOnce (rest ++ more)) : OpensOnce rest := by
  rintro q ⟨front, hq⟩ hp
  refine h (q ++ more) ⟨front, ?_⟩ (hp.trans (List.prefix_append q more))
  rw [← List.append_assoc, hq]
  rfl

theorem matchBoxed_eq_none {rest q : List Char} (h : OpensOnce rest)
    (hq : q <:+ (boxOpening ++ rest).tail) : matchBoxed q = none := by
  rw [Option.eq_none_iff_forall_ne_some]
  rintro ⟨a, len⟩ hm
  obtain ⟨-, -, post, rfl⟩ := matchBoxed_eq_some_iff.mp hm
  exact h _ hq (List.prefix_append _ _)

/-- The groups found before a box do not run into it. -/
theorem findall_append_box (pre rest : List Char) :
    ∃ found, findall matchBoxed (pre ++ (boxOpening ++ rest)) =
      found ++ findall matchBoxed (boxOpening ++ rest) := by
  have hcut : ∀ q a len, q ≠ [] → q <:+ pre →
      matchBoxed (q ++ (boxOpening ++ rest)) = some (a, len) →
        len ≤ q.length := fun _ _ _ hne _ hm => length_le_of_matchBoxed hne hm
  exact findallFrom_append hcut (Nat.zero_le _)

/-- The search takes a flat box and goes on behind it. -/
theorem findall_flat_box {a : List Char} (hflat : Flat '{' '}' a)
    (rest : List Char) :
    findall matchBoxed (boxOpening ++ (a ++ '}' :: rest)) =
      a :: findall matchBoxed rest := by
  have hm := matchBoxed_of_flat hflat rest
  change matchBoxed ('\\' :: _) = _ at hm
  show findallFrom matchBoxed 0 ('\\' :: _) = _
  rw [findallFrom, hm]
  have hskip := findallFrom_skip matchBoxed
    (['b', 'o', 'x', 'e', 'd', '{'] ++ (a ++ ['}'])) rest
  have hlength : (['b', 'o', 'x', 'e', 'd', '{'] ++ (a ++ ['}'])).length =
      7 + a.length + 1 - 1 := by simp; omega
  rw [hlength] at hskip
  simpa [findall] using congrArg (a :: ·) hskip

theorem findall_nested_box {content post : List Char}
    (hnested : ¬ Flat '{' '}' content)
    (hmatching : untilClosed '{' '}' 0 (content ++ '}' :: post) = some content)
    (h : OpensOnce (content ++ '}' :: post)) :
    findall matchBoxed (boxOpening ++ (content ++ '}' :: post)) = [] := by
  obtain hflat | ⟨before, inner, hcontent, hbefore⟩ :=
    flat_or_open_first hmatching
  · exact absurd hflat hnested
  refine findallFrom_eq_nil fun q hq => ?_
  rcases List.suffix_cons_iff.mp hq with rfl | hq
  · -- the flat pattern stops at the first inner brace
    rw [Option.eq_none_iff_forall_ne_some]
    rintro ⟨a, len⟩ hm
    obtain ⟨hflat, -, post', heq⟩ := matchBoxed_eq_some_iff.mp hm
    have hafter : content ++ '}' :: post = a ++ '}' :: post' := by
      change boxOpening ++ _ = boxOpening ++ _ at heq
      exact List.append_cancel_left heq
    rw [hcontent, List.append_assoc] at hafter
    exact absurd (hbefore.first_bracket_unique hflat (.inl rfl) (.inr rfl)
      hafter).2 (by decide)
  · exact matchBoxed_eq_none h hq

/-- Stripping a response leaves its last box as it is. -/
theorem lastBoxed_eq_some {text : String} {content : List Char}
    (h : lastBoxed text = some content) :
    ∃ pre post, stripChars text.toList =
        pre ++ (boxOpening ++ (content ++ '}' :: post)) ∧
      untilClosed '{' '}' 0 (content ++ '}' :: post) = some content ∧
      OpensOnce (content ++ '}' :: post) := by
  obtain ⟨rest, hrest, hmatching⟩ := Option.bind_eq_some_iff.mp h
  obtain ⟨pre, htext, honce⟩ := lastAfter_eq_some (by simp [boxOpening]) hrest
  obtain ⟨post, rfl⟩ := untilClosed_eq_append hmatching
  refine ⟨pre.dropWhile isSpace, post.rdropWhile isSpace, ?_,
    untilClosed_of_append hmatching _, ?_⟩
  · rw [htext]
    exact stripChars_append pre (['b', 'o', 'x', 'e', 'd', '{'] ++ content) post
      (by decide) (by decide)
  · obtain ⟨blanks, hblanks⟩ := List.rdropWhile_prefix isSpace post
    have hpost : (content ++ '}' :: post.rdropWhile isSpace) ++ blanks =
        content ++ '}' :: post := by
      rw [List.append_assoc, List.cons_append, hblanks]
    rw [← hpost] at honce
    exact OpensOnce.of_append honce

/-! ## The answer -/

theorem extractFinalAnswer_of_box {text : String} {content : List Char}
    (h : (findall matchBoxed (stripChars text.toList)).getLast? =
      some content) :
    extractFinalAnswer text = String.ofList (stripChars content) := by
  have hne : (stripChars text.toList).isEmpty = false := by
    cases hcs : stripChars text.toList with
    | nil => rw [hcs] at h; cases h
    | cons c cs => rfl
  simp [extractFinalAnswer, hne, h]

theorem extractFinalAnswer_of_no_box {text : String}
    (hne : stripChars text.toList ≠ [])
    (h : findall matchBoxed (stripChars text.toList) = []) :
    extractFinalAnswer text =
      match (answerLines text).getLast? with
      | some line => String.ofList (stripChars line)
      | none =>
        match (nonblankLines text).getLast? with
        | some line => String.ofList (line.take 256)
        | none => "" := by
  rw [extractFinalAnswer]
  rw [if_neg (by simpa using hne), h]
  rfl

theorem flat_stripChars {cs : List Char} :
    Flat '{' '}' (stripChars cs) ↔ Flat '{' '}' cs := by
  rw [flat_iff, flat_iff, mem_stripChars (by decide),
    mem_stripChars (by decide)]

/-- With braces in the box the answer is the box only by the coincidence of a
line. -/
theorem extractFinalAnswer_of_nested {text : String} {content : List Char}
    (h : lastBoxed text = some content) (hnested : ¬ Flat '{' '}' content) :
    extractFinalAnswer text = String.ofList (stripChars content) ↔
      LineIsBox text content := by
  obtain ⟨pre, post, htext, hmatching, honce⟩ := lastBoxed_eq_some h
  have hne : stripChars text.toList ≠ [] := by rw [htext]; simp [boxOpening]
  cases hlast : (findall matchBoxed (stripChars text.toList)).getLast? with
  | some group =>
      -- an earlier flat group is voted for
      have hflat := flat_of_mem_findall (List.mem_of_getLast? hlast)
      constructor
      · intro heq
        rw [extractFinalAnswer_of_box hlast, String.ofList_inj] at heq
        exact absurd (flat_stripChars.mp (heq ▸ flat_stripChars.mpr hflat))
          hnested
      · rintro ⟨hnone, -⟩
        rw [hnone] at hlast
        cases hlast
  | none =>
      have hnone := List.getLast?_eq_none_iff.mp hlast
      rw [extractFinalAnswer_of_no_box hne hnone, LineIsBox]
      cases hline : (answerLines text).getLast? with
      | some line => simp [hnone, String.ofList_inj]
      | none =>
          cases hlines : (nonblankLines text).getLast? with
          | some line => simp [hnone, String.ofList_inj]
          | none =>
              have hblank : stripChars content ≠ [] := by
                intro hnil
                refine hnested (flat_stripChars.mp ?_)
                rw [hnil]
                simp [Flat]
              constructor
              · intro heq
                have heq : String.ofList [] =
                    String.ofList (stripChars content) := heq
                exact absurd (String.ofList_inj.mp heq).symm hblank
              · rintro ⟨-, line, hline, -⟩
                cases hline

/-- A flat last box is the answer. -/
theorem extractFinalAnswer_of_flat {text : String} {content : List Char}
    (h : lastBoxed text = some content) (hflat : Flat '{' '}' content) :
    extractFinalAnswer text = String.ofList (stripChars content) := by
  obtain ⟨pre, post, htext, -, honce⟩ := lastBoxed_eq_some h
  obtain ⟨found, hfound⟩ := findall_append_box pre (content ++ '}' :: post)
  have hpost : findall matchBoxed post = [] := by
    refine findallFrom_eq_nil fun q hq => matchBoxed_eq_none honce ?_
    refine hq.trans ⟨['b', 'o', 'x', 'e', 'd', '{'] ++ content ++ ['}'], ?_⟩
    simp [boxOpening]
  apply extractFinalAnswer_of_box
  rw [htext, hfound, findall_flat_box hflat, hpost, List.getLast?_concat]

/-- A box before the last one does not move the last one. -/
theorem lastBoxed_of_box {content post : List Char} (first : List Char)
    (hmatching : untilClosed '{' '}' 0 (content ++ '}' :: post) = some content)
    (h : OpensOnce (content ++ '}' :: post)) :
    lastBoxed (String.ofList
      (first ++ (boxOpening ++ (content ++ '}' :: post)))) = some content := by
  rw [lastBoxed, String.toList_ofList,
    lastAfter_append (by simp [boxOpening]) h]
  exact hmatching

/-- A flat box before a nested one is voted for. -/
theorem extractFinalAnswer_of_flat_before {a content post : List Char}
    (hflat : Flat '{' '}' a) (hnested : ¬ Flat '{' '}' content)
    (hmatching : untilClosed '{' '}' 0 (content ++ '}' :: post) = some content)
    (h : OpensOnce (content ++ '}' :: post)) :
    extractFinalAnswer (String.ofList ((boxOpening ++ (a ++ ['}'])) ++
      (boxOpening ++ (content ++ '}' :: post)))) =
        String.ofList (stripChars a) := by
  obtain ⟨blanks, hblanks⟩ := List.rdropWhile_prefix isSpace post
  have hpost : (content ++ '}' :: post.rdropWhile isSpace) ++ blanks =
      content ++ '}' :: post := by
    rw [List.append_assoc, List.cons_append, hblanks]
  rw [← hpost] at h
  have hstrip : stripChars ((boxOpening ++ (a ++ ['}'])) ++
      (boxOpening ++ (content ++ '}' :: post))) =
      boxOpening ++ (a ++ '}' ::
        (boxOpening ++ (content ++ '}' :: post.rdropWhile isSpace))) := by
    have hends := stripChars_append [] (['b', 'o', 'x', 'e', 'd', '{'] ++
      (a ++ '}' :: (boxOpening ++ content))) post (x := '\\') (y := '}')
      (by decide) (by decide)
    simpa [boxOpening] using hends
  apply extractFinalAnswer_of_box
  rw [String.toList_ofList, hstrip, findall_flat_box hflat,
    findall_nested_box hnested (untilClosed_of_append hmatching _) h.of_append]
  rfl

/-- **The boxed answer.** A response whose last `\boxed{` is closed is answered
by the content of that group exactly when there is no brace inside, the
coincidence of an unboxed line apart; and all responses that end in this box
cast one vote exactly when there is none. -/
theorem extractFinalAnswer_eq_lastBoxed_iff (text : String)
    (content : List Char) (h : lastBoxed text = some content) :
    (extractFinalAnswer text = String.ofList (stripChars content) ↔
      Flat '{' '}' content ∨ LineIsBox text content) ∧
    ((∀ s t, lastBoxed s = some content → lastBoxed t = some content →
        extractFinalAnswer s = extractFinalAnswer t) ↔
      Flat '{' '}' content) := by
  refine ⟨?_, ?_, ?_⟩
  · by_cases hflat : Flat '{' '}' content
    · simp [hflat, extractFinalAnswer_of_flat h hflat]
    · simp [hflat, extractFinalAnswer_of_nested h hflat]
  · intro hvotes
    by_contra hnested
    obtain ⟨pre, post, -, hmatching, honce⟩ := lastBoxed_eq_some h
    -- two responses that differ in an intermediate result only
    have hvote : ∀ a, Flat '{' '}' a → extractFinalAnswer (String.ofList
        ((boxOpening ++ (a ++ ['}'])) ++
          (boxOpening ++ (content ++ '}' :: post)))) =
        String.ofList (stripChars a) := fun a ha =>
      extractFinalAnswer_of_flat_before ha hnested hmatching honce
    have hsame := hvotes _ _
      (lastBoxed_of_box (boxOpening ++ (['1'] ++ ['}'])) hmatching honce)
      (lastBoxed_of_box (boxOpening ++ (['2'] ++ ['}'])) hmatching honce)
    rw [hvote ['1'] (by decide), hvote ['2'] (by decide)] at hsame
    exact absurd hsame (by decide)
  · intro hflat s t hs ht
    rw [extractFinalAnswer_of_flat hs hflat,
      extractFinalAnswer_of_flat ht hflat]

theorem extractFinalAnswer_eq_lastBoxed_iff_half :
    lastBoxed "so \\boxed\x7b1/2 \x7d." = some "1/2 ".toList ∧
      extractFinalAnswer "so \\boxed\x7b1/2 \x7d." =
        String.ofList (stripChars "1/2 ".toList) := by
  have hbox : lastBoxed "so \\boxed\x7b1/2 \x7d." = some "1/2 ".toList := by
    decide +kernel
  exact ⟨hbox, (extractFinalAnswer_eq_lastBoxed_iff _ _ hbox).1.mpr
    (.inl (by decide))⟩

/-- A nested box loses to an earlier intermediate one. -/
theorem exists_nested_box_lost :
    ∃ text content, lastBoxed text = some content ∧
      extractFinalAnswer text ≠ String.ofList (stripChars content) :=
  ⟨"First \\boxed\x7b2\x7d, hence \\boxed\x7b\\frac\x7b1\x7d\x7b2\x7d\x7d.",
    "\\frac\x7b1\x7d\x7b2\x7d".toList, by decide +kernel, by decide +kernel⟩

end TTSR.Reward
