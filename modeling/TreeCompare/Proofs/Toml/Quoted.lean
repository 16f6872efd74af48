import TreeCompare.Toml.Quoted
/-!
# Quoted text is read back

What stands between the marks of a form spells a text (`Quoting.Spells`) if
reading it gives the text and it cannot be taken for something else at its
start. Text with escapes does (`spells_writtenBody`), whatever is in it, and so
does text that stands for itself as long as its marks do not close it early
(`spells_verbatim`). A text is written in a form in which it is spelled
(`spells_choose`), so it is read back, and what follows it is left
(`read?_quote`).
-/

namespace TreeCompare

namespace Toml

/-! ## Digits and line breaks -/

theorem hexValue?_toUpper {d : Nat} (h : d < 16) :
    hexValue? (Nat.digitChar d).toUpper = some d := by
  revert d
  decide

/-- A character is read back from its hexadecimal digits, if four are
enough. -/
theorem hexChar?_hexDigits {c : Char} (h : c.toNat < 0x10000) (rest : List Char) :
    hexChar? 4 (hexDigits c.toNat ++ rest) = some (c, rest) := by
  have hvalue : ∀ n, hexValue? (Nat.digitChar (n % 16)).toUpper = some (n % 16) := fun n =>
    hexValue?_toUpper (Nat.mod_lt _ (by decide))
  have hdigits : (hexDigits c.toNat).mapM hexValue? =
      some [c.toNat / 4096 % 16, c.toNat / 256 % 16, c.toNat / 16 % 16, c.toNat % 16] := by
    simp only [hexDigits, List.map_cons, List.map_nil, List.mapM_cons, List.mapM_nil, hvalue]
    rfl
  have hsum : ((((0 * 16 + c.toNat / 4096 % 16) * 16 + c.toNat / 256 % 16) * 16 +
      c.toNat / 16 % 16) * 16 + c.toNat % 16) = c.toNat := by omega
  have htake : (hexDigits c.toNat ++ rest).take 4 = hexDigits c.toNat := List.take_left' rfl
  have hdrop : (hexDigits c.toNat ++ rest).drop 4 = rest := List.drop_left' rfl
  simp only [hexChar?, htake, hdrop, hdigits, Option.bind_eq_bind, Option.bind_some,
    List.foldl_cons, List.foldl_nil, hsum]
  rw [if_pos ⟨rfl, c.valid⟩, Char.ofNat_toNat]

theorem lineBreak?_eq_none {text : List Char} (hn : text.head? ≠ some '\n')
    (hr : text.head? ≠ some '\r') : lineBreak? text = none := by
  unfold lineBreak?
  split
  · exact absurd rfl hn
  · exact absurd rfl hr
  · rfl

/-- A character that stands for itself breaks no line. -/
theorem ne_of_isPlain {c : Char} (h : isPlain c) : c ≠ '\n' ∧ c ≠ '\r' :=
  ⟨fun hc => by rw [hc] at h; exact absurd h (by decide),
    fun hc => by rw [hc] at h; exact absurd h (by decide)⟩

namespace Quoting

variable {q : Quoting} {marks : Nat} {c : Char} {rest : List Char}

theorem slack_lt_width (q : Quoting) : q.slack < q.width := by
  unfold slack width
  split <;> decide

theorem le_longestRun (c : Char) (run : Nat) (text : List Char) : run ≤ longestRun c run text := by
  induction text generalizing run with
  | nil => exact Nat.le_refl _
  | cons d text ih =>
    rw [longestRun]
    split
    · exact Nat.le_of_succ_le (ih _)
    · exact Nat.le_max_left ..

/-! ## Reading between the marks -/

theorem body_mark (h : marks < q.width + q.slack) :
    q.body marks (q.mark :: rest) = q.body (marks + 1) rest := by
  rw [body, if_pos ⟨rfl, h⟩]

theorem body_unit {unit rest' : List Char} (hc : c ≠ q.mark) (h : marks < q.width)
    (hu : q.unit? c rest = some (unit, rest')) :
    q.body marks (c :: rest) = (q.body 0 rest').map fun (read, rest) =>
      (List.replicate marks q.mark ++ unit ++ read, rest) := by
  rw [body, if_neg fun h => hc h.1, if_neg (Nat.not_le.2 h)]
  split
  · next hnone =>
      rw [hnone] at hu
      cases hu
  · next hsome =>
    obtain ⟨rfl, rfl⟩ := Prod.mk.inj (Option.some.inj (hsome.symm.trans hu))
    rfl

theorem body_marks {n : Nat} (h : marks + n ≤ q.width + q.slack) :
    q.body marks (List.replicate n q.mark ++ rest) = q.body (marks + n) rest := by
  induction n generalizing marks with
  | zero => rfl
  | succ n ih =>
    rw [List.replicate_succ, List.cons_append, body_mark (by omega), ih (by omega)]
    congr 1
    omega

/-- The last marks close a text, and those before them belong to it. -/
theorem body_close (h : marks ≤ q.slack) (hrest : rest.head? ≠ some q.mark) :
    q.body marks (List.replicate q.width q.mark ++ rest) =
      some (List.replicate marks q.mark, rest) := by
  rw [body_marks (by omega)]
  cases rest with
  | nil => rw [body, if_pos (by omega), Nat.add_sub_cancel]
  | cons c rest =>
    have hc : c ≠ q.mark := fun hc => hrest (congrArg some hc)
    rw [body, if_neg fun h => hc h.1, if_pos (by omega), Nat.add_sub_cancel]

/-! ## What spells a text -/

/-- Between the marks of a form these characters spell a text. -/
structure Spells (q : Quoting) (inner text : List Char) : Prop where
  body (rest : List Char) (h : rest.head? ≠ some q.mark) :
    q.body 0 (inner ++ (List.replicate q.width q.mark ++ rest)) = some (text, rest)
  /-- They do not go on with the marks, if there is one. -/
  head (h : q.lines = false) : inner.head? ≠ some q.mark
  /-- They start with a line break only if the text has one. -/
  begins (h : '\n' ∉ text) : inner.head? ≠ some '\n' ∧ inner.head? ≠ some '\r'

theorem unit?_escape {lines : Bool} {c : Char} {rest : List Char} :
    unit? ⟨true, lines⟩ '\\' (c :: rest) = escape? lines (c :: rest) := if_pos ⟨rfl, rfl⟩

/-- A character that stands for itself is read as itself. -/
theorem unit?_plain (hc : isPlain c) (hq : q.escapes = true → c ≠ '\\') :
    q.unit? c rest = some ([c], rest) := by
  obtain ⟨hn, hr⟩ := ne_of_isPlain hc
  have hnone : lineBreak? (c :: rest) = none :=
    lineBreak?_eq_none (fun h => hn (Option.some.inj h)) fun h => hr (Option.some.inj h)
  rw [unit?, if_neg fun h => hq h.1 h.2, hnone]
  simp only [hc, if_true]

/-- A line break is read as itself where there may be several lines. -/
theorem unit?_lineBreak (hq : q.lines = true) : q.unit? '\n' rest = some (['\n'], rest) := by
  rw [unit?, if_neg fun h => absurd h.2 (by decide)]
  simp only [lineBreak?, hq, if_true]

/-- **A character is read back from how it is written** in text with
escapes. -/
theorem unit?_writtenChar (lines : Bool) (c : Char) :
    ∃ d written, writtenChar lines c = d :: written ∧ (d = c ∨ d = '\\') ∧
      (d = '\n' ∨ d = '\r' → c = '\n') ∧
      ∀ rest, unit? ⟨true, lines⟩ d (written ++ rest) = some ([c], rest) := by
  by_cases hbreak : c = '\n' ∧ lines = true
  · obtain ⟨rfl, rfl⟩ := hbreak
    exact ⟨'\n', [], rfl, Or.inl rfl, fun _ => rfl, fun rest => unit?_lineBreak rfl⟩
  rcases hfind : shortEscapes.find? (·.1 == c) with - | ⟨meant, letter⟩
  · by_cases hplain : isPlain c = true
    · refine ⟨c, [], by simp only [writtenChar, if_neg hbreak, hfind, if_pos hplain], Or.inl rfl,
        fun h => h.elim id fun h => absurd h (ne_of_isPlain hplain).2, fun rest => ?_⟩
      refine unit?_plain hplain fun _ hc => ?_
      rw [hc] at hfind
      exact absurd hfind (by decide)
    · have hsmall : c.toNat < 0x10000 := by
        simp only [isPlain, Bool.or_eq_true, Bool.and_eq_true, decide_eq_true_eq] at hplain
        omega
      refine ⟨'\\', 'u' :: hexDigits c.toNat,
        by simp only [writtenChar, if_neg hbreak, hfind, if_neg hplain, List.cons_append,
          List.nil_append], Or.inr rfl, fun h => absurd h (by decide), fun rest => ?_⟩
      have hu : shortEscapes.find? (·.2 == 'u') = none := by decide
      simp only [List.cons_append, unit?_escape, escape?, hu, if_true, hexChar?_hexDigits hsmall,
        Option.map_some]
  · have hmem := List.mem_of_find?_eq_some hfind
    have hmeant : meant = c := by simpa using List.find?_some hfind
    have hback : ∀ e ∈ shortEscapes, shortEscapes.find? (·.2 == e.2) = some e := by decide
    refine ⟨'\\', [letter], by simp only [writtenChar, if_neg hbreak, hfind], Or.inr rfl,
      fun h => absurd h (by decide), fun rest => ?_⟩
    simp only [List.cons_append, List.nil_append, unit?_escape, escape?, hback _ hmem, hmeant]

/-- A quotation mark behind as many as may stand in a row is read back from its
escape. -/
theorem unit?_mark (lines : Bool) (rest : List Char) :
    unit? ⟨true, lines⟩ '\\' ('"' :: rest) = some (['"'], rest) := by
  have hfind : shortEscapes.find? (·.2 == '"') = some ('"', '"') := by decide
  simp only [unit?_escape, escape?, hfind]

/-- Text with escapes behind some marks of its own. -/
theorem body_writtenBody {lines : Bool} (text : List Char)
    (h : marks ≤ slack ⟨true, lines⟩) (hrest : rest.head? ≠ some '"') :
    body ⟨true, lines⟩ marks (writtenBody lines (slack ⟨true, lines⟩) marks text ++
        (List.replicate (width ⟨true, lines⟩) '"' ++ rest)) =
      some (List.replicate marks '"' ++ text, rest) := by
  have hlt := slack_lt_width ⟨true, lines⟩
  induction text generalizing marks with
  | nil =>
    rw [List.append_nil]
    exact body_close h hrest
  | cons c text ih =>
    by_cases hc : c = '"'
    · by_cases hm : marks < slack ⟨true, lines⟩
      · rw [writtenBody, if_pos hc, if_pos hm, hc, List.cons_append]
        refine (body_mark (q := ⟨true, lines⟩) (by omega)).trans ?_
        rw [ih hm, List.replicate_succ', List.append_assoc]
        rfl
      · rw [writtenBody, if_pos hc, if_neg hm, hc]
        simp only [List.cons_append, List.nil_append]
        refine (body_unit (show '\\' ≠ '"' by decide) (by omega) (unit?_mark lines _)).trans ?_
        rw [ih (Nat.zero_le _), Option.map_some]
        simp [mark]
    · obtain ⟨d, written, hwritten, hd, -, hunit⟩ := unit?_writtenChar lines c
      have hne : d ≠ '"' := by
        rcases hd with rfl | rfl
        · exact hc
        · decide
      rw [writtenBody, if_neg hc, hwritten, List.append_assoc, List.cons_append]
      refine (body_unit hne (by omega) (hunit _)).trans ?_
      rw [ih (Nat.zero_le _), Option.map_some]
      simp [mark]

/-- **Text with escapes is spelled**, whatever is in it. -/
theorem spells_writtenBody (lines : Bool) (text : List Char) :
    Spells ⟨true, lines⟩ (writtenBody lines (slack ⟨true, lines⟩) 0 text) text := by
  refine ⟨fun rest h => body_writtenBody text (Nat.zero_le _) h, fun h => ?_, fun h => ?_⟩
  · obtain rfl : lines = false := h
    cases text with
    | nil => exact nofun
    | cons c text =>
      rw [writtenBody]
      split
      · simp [slack, mark]
      · next hc =>
        obtain ⟨d, written, hwritten, hd, -, -⟩ := unit?_writtenChar false c
        rw [hwritten]
        intro hmark
        obtain rfl : d = '"' := Option.some.inj hmark
        rcases hd with hd | hd
        · exact hc hd.symm
        · exact absurd hd (by decide)
  · cases text with
    | nil => exact ⟨nofun, nofun⟩
    | cons c text =>
      rw [writtenBody]
      split
      · next hc =>
        split
        · rw [hc]
          exact ⟨by simp, by simp⟩
        · exact ⟨by simp, by simp⟩
      · obtain ⟨d, written, hwritten, -, hd, -⟩ := unit?_writtenChar lines c
        have hc : c ≠ '\n' := fun hc => h (hc ▸ List.mem_cons_self ..)
        rw [hwritten]
        exact ⟨fun hn => hc (hd (Or.inl (Option.some.inj hn))),
          fun hr => hc (hd (Or.inr (Option.some.inj hr)))⟩

/-- Text that stands for itself behind some marks of its own. -/
theorem body_verbatim {lines : Bool} (text : List Char)
    (hplain : ∀ c ∈ text, isPlain c = true ∨ lines = true ∧ c = '\n')
    (hrun : longestRun apostrophe marks text ≤ slack ⟨false, lines⟩)
    (hrest : rest.head? ≠ some apostrophe) :
    body ⟨false, lines⟩ marks (text ++
        (List.replicate (width ⟨false, lines⟩) apostrophe ++ rest)) =
      some (List.replicate marks apostrophe ++ text, rest) := by
  have hlt := slack_lt_width ⟨false, lines⟩
  induction text generalizing marks with
  | nil =>
    rw [List.append_nil]
    exact body_close hrun hrest
  | cons c text ih =>
    have ih' := fun marks => @ih marks fun c hc => hplain c (List.mem_cons_of_mem _ hc)
    rw [longestRun] at hrun
    by_cases hc : c = apostrophe
    · rw [if_pos hc] at hrun
      have hle : marks + 1 ≤ slack ⟨false, lines⟩ := Nat.le_trans (le_longestRun ..) hrun
      rw [hc, List.cons_append]
      refine (body_mark (q := ⟨false, lines⟩) (by omega)).trans ?_
      rw [ih' _ hrun, List.replicate_succ', List.append_assoc]
      rfl
    · rw [if_neg hc] at hrun
      have hunit : ∀ rest, unit? ⟨false, lines⟩ c rest = some ([c], rest) := fun rest => by
        rcases hplain c (List.mem_cons_self ..) with hc | ⟨hl, rfl⟩
        · exact unit?_plain hc nofun
        · exact unit?_lineBreak hl
      rw [List.cons_append]
      refine (body_unit hc (by omega) (hunit _)).trans ?_
      rw [ih' 0 (by omega), Option.map_some]
      simp [mark]

/-- **Text that stands for itself is spelled** if each of its characters may
stand in it and its marks do not close it. -/
theorem spells_verbatim {lines : Bool} {text : List Char}
    (hplain : ∀ c ∈ text, isPlain c = true ∨ lines = true ∧ c = '\n')
    (hrun : longestRun apostrophe 0 text ≤ slack ⟨false, lines⟩) :
    Spells ⟨false, lines⟩ text text := by
  refine ⟨fun rest h => body_verbatim text hplain hrun h, fun h => ?_, fun h => ?_⟩
  · obtain rfl : lines = false := h
    cases text with
    | nil => exact nofun
    | cons c text =>
      intro hc
      obtain rfl : c = apostrophe := Option.some.inj hc
      rw [longestRun, if_pos rfl] at hrun
      exact absurd (Nat.le_trans (le_longestRun ..) hrun) (by decide)
  · cases text with
    | nil => exact ⟨nofun, nofun⟩
    | cons c text =>
      have hc : isPlain c = true := (hplain c (List.mem_cons_self ..)).resolve_right
        fun hn => h (hn.2 ▸ List.mem_cons_self ..)
      exact ⟨fun hn => (ne_of_isPlain hc).1 (Option.some.inj hn),
        fun hr => (ne_of_isPlain hc).2 (Option.some.inj hr)⟩

/-! ## The form that is chosen -/

/-- A text without escapes is written where it can stand for itself. -/
theorem choose_verbatim (text : List Char) (h : (choose text).escapes = false) :
    (∀ c ∈ text, isPlain c = true ∨ (choose text).lines = true ∧ c = '\n') ∧
      longestRun apostrophe 0 text ≤ (choose text).slack := by
  have hplain : needsEscape text = false → ∀ c ∈ text, isPlain c = true ∨ c = '\n' := by
    intro hn c hc
    have := List.any_eq_false.1 hn c hc
    simp only [Bool.and_eq_true, Bool.not_eq_true', decide_eq_true_eq, not_and, ne_eq,
      Classical.not_not] at this
    cases hp : isPlain c with
    | true => exact Or.inl rfl
    | false => exact Or.inr (this hp)
  generalize hq : choose text = q at h ⊢
  unfold choose at hq
  simp only [Bool.and_eq_true, Bool.not_eq_true', decide_eq_true_eq] at hq
  split at hq
  · cases hq
    cases h
  split at hq
  · next hone =>
    cases hq
    obtain ⟨⟨hn, hrun⟩, hbroken⟩ := hone
    refine ⟨fun c hc => Or.inl ((hplain hn c hc).resolve_right fun hc' => ?_), Nat.le_of_eq hrun⟩
    rw [hc'] at hc
    exact absurd hbroken (by simpa using hc)
  split at hq
  · cases hq
    cases h
  split at hq
  · next hmany =>
    cases hq
    obtain ⟨hn, hrun⟩ := hmany
    exact ⟨fun c hc => (hplain hn c hc).imp_right fun hc' => ⟨rfl, hc'⟩, hrun⟩
  · cases hq
    cases h

/-- **A text is written in a form in which it is spelled.** -/
theorem spells_choose (text : List Char) :
    (choose text).Spells
      (if (choose text).escapes then writtenBody (choose text).lines (choose text).slack 0 text
        else text) text := by
  have hverbatim := choose_verbatim text
  generalize choose text = q at *
  obtain ⟨_ | _, lines⟩ := q
  · obtain ⟨hplain, hrun⟩ := hverbatim rfl
    exact spells_verbatim hplain hrun
  · exact spells_writtenBody lines text

/-- Text of several lines is read back from between its marks. -/
theorem lines?_write (hl : q.lines = true) {inner text rest : List Char} (h : q.Spells inner text)
    (hrest : rest.head? ≠ some q.mark) :
    lines? q (List.replicate q.width q.mark ++
        ((if text.contains '\n' then ['\n'] else []) ++
          (inner ++ (List.replicate q.width q.mark ++ rest)))) = some (text, rest) := by
  have hdrop : ∀ body, (List.replicate q.width q.mark ++ body).drop q.width = body := fun body =>
    List.drop_left' List.length_replicate
  rw [lines?, hdrop]
  by_cases hn : '\n' ∈ text
  · rw [if_pos (by simpa using hn)]
    exact h.body rest hrest
  · -- without a line break at the start none is left out
    have hmark : ∀ c, c ≠ q.mark → (List.replicate q.width q.mark ++ rest).head? ≠ some c := by
      intro c hc
      obtain ⟨n, hn⟩ : ∃ n, q.width = n + 1 := ⟨2, by simp only [width, hl, if_true]⟩
      rw [hn, List.replicate_succ, List.cons_append, List.head?_cons]
      exact fun h => hc (Option.some.inj h).symm
    obtain ⟨hbegin, hbegin'⟩ := h.begins hn
    have hnone : lineBreak? (inner ++ (List.replicate q.width q.mark ++ rest)) = none := by
      cases inner with
      | nil =>
        refine lineBreak?_eq_none (hmark _ ?_) (hmark _ ?_) <;>
          · unfold mark
            split <;> decide
      | cons c inner => exact lineBreak?_eq_none hbegin hbegin'
    rw [if_neg (by simpa using hn), List.nil_append, hnone]
    exact h.body rest hrest

/-- What spells a text is read back from between its marks. -/
theorem read?_write {inner text rest : List Char} (h : q.Spells inner text)
    (hrest : rest.head? ≠ some q.mark) :
    read? (List.replicate q.width q.mark ++
        ((if q.lines ∧ text.contains '\n' then ['\n'] else []) ++
          (inner ++ (List.replicate q.width q.mark ++ rest)))) = some (text, rest) := by
  obtain ⟨escapes, lines⟩ := q
  cases lines with
  | true =>
    have hread := lines?_write rfl h hrest
    simp only [true_and]
    cases escapes with
    | true => exact hread
    | false => exact hread
  | false =>
    have hopens : opens (mark ⟨escapes, false⟩)
        (inner ++ (mark ⟨escapes, false⟩ :: rest)) = false := by
      rw [opens, beq_eq_false_iff_ne]
      intro htake
      cases inner with
      | nil =>
        cases rest with
        | nil => cases htake
        | cons c rest => exact hrest (congrArg some (List.cons.inj (List.cons.inj htake).2).1)
      | cons c inner => exact h.head rfl (congrArg some (List.cons.inj htake).1)
    have hread := h.body rest hrest
    simp only [Bool.false_eq_true, false_and, if_false, List.nil_append]
    refine (if_neg (Bool.eq_false_iff.1 hopens)).trans ?_
    cases escapes with
    | true => exact hread
    | false => exact hread

end Quoting

/-- **A quoted text is read back**, whatever follows it but one more mark. -/
theorem read?_quote (text : List Char) {rest : List Char} (h : rest.head? ≠ some '"')
    (h' : rest.head? ≠ some apostrophe) :
    Quoting.read? (quote text ++ rest) = some (text, rest) := by
  have hrest : rest.head? ≠ some (Quoting.choose text).mark := by
    unfold Quoting.mark
    split
    · exact h
    · exact h'
  rw [← Quoting.read?_write (Quoting.spells_choose text) hrest]
  simp only [quote, Quoting.write, List.append_assoc]

end Toml

end TreeCompare
