/-!
# Quoted text in settings files

Text stands between quotation marks, in which a backslash starts an
escape, or between apostrophes, in which every character stands for
itself; three marks instead of one let the text have several lines.

`Quoting.body` reads what follows the opening marks. `Quoting.choose`
picks the form in which a text is written, the plainest that spares
escapes, and `quote` writes it.
-/

namespace TreeCompare

namespace Toml

/-- A form of quoted text. -/
structure Quoting where
  /-- Quotation marks and escapes, or apostrophes and none. -/
  escapes : Bool
  /-- Three marks, and as many lines as wanted. -/
  lines : Bool
deriving DecidableEq, Repr

/-- The mark of text without escapes. -/
def apostrophe : Char := Char.ofNat 0x27

/-- A character that stands for itself in text and comments: no control
character but the tab. -/
def isPlain (c : Char) : Bool := c = '\t' || (0x20 ≤ c.toNat && c.toNat ≠ 0x7F)

/-- Space within a line. -/
def isSpace (c : Char) : Bool := c = ' ' || c = '\t'

/-- The value of a hexadecimal digit. -/
def hexValue? (c : Char) : Option Nat :=
  if '0' ≤ c ∧ c ≤ '9' then some (c.toNat - 0x30)
  else if 'a' ≤ c ∧ c ≤ 'f' then some (c.toNat - 0x61 + 10)
  else if 'A' ≤ c ∧ c ≤ 'F' then some (c.toNat - 0x41 + 10)
  else none

/-- The character whose number the first `count` characters of `text` are
in hexadecimal. -/
def hexChar? (count : Nat) (text : List Char) : Option (Char × List Char) := do
  let digits ← (text.take count).mapM hexValue?
  let n := digits.foldl (· * 16 + ·) 0
  if digits.length = count ∧ n.isValidChar then some (Char.ofNat n, text.drop count) else none

/-- What remains after a line break, if `text` starts with one. -/
def lineBreak? : List Char → Option (List Char)
  | '\n' :: rest => some rest
  | '\r' :: '\n' :: rest => some rest
  | _ => none

/-- Leaves out space and line breaks. -/
def skipLines : List Char → List Char
  | '\n' :: rest => skipLines rest
  | '\r' :: '\n' :: rest => skipLines rest
  | ' ' :: rest => skipLines rest
  | '\t' :: rest => skipLines rest
  | text => text

/-- The characters that are written as a backslash and a letter, with the
letter. -/
def shortEscapes : List (Char × Char) :=
  [(Char.ofNat 0x08, 'b'), ('\t', 't'), ('\n', 'n'), (Char.ofNat 0x0C, 'f'), ('\r', 'r'),
    ('"', '"'), ('\\', '\\')]

/-- What an escape stands for, after its backslash, and what remains. In
text of several lines a backslash at the end of a line leaves out the line
break and all space after it. -/
def escape? (lines : Bool) (text : List Char) : Option (List Char × List Char) :=
  match text with
  | [] => none
  | c :: rest =>
    match shortEscapes.find? (·.2 == c) with
    | some (meant, _) => some ([meant], rest)
    | none =>
      if c = 'u' then (hexChar? 4 rest).map fun (c, rest) => ([c], rest)
      else if c = 'U' then (hexChar? 8 rest).map fun (c, rest) => ([c], rest)
      else if lines then
        (lineBreak? (text.dropWhile isSpace)).map fun rest => ([], skipLines rest)
      else none

namespace Quoting

/-- The mark of a form. -/
def mark (q : Quoting) : Char := if q.escapes then '"' else apostrophe

/-- How many marks stand on each side. -/
def width (q : Quoting) : Nat := if q.lines then 3 else 1

/-- How many marks the text itself may have in a row, also right before
the closing ones. -/
def slack (q : Quoting) : Nat := if q.lines then 2 else 0

/-- What the first characters of a body stand for, and what remains. The
marks of the form are not among them. -/
def unit? (q : Quoting) (c : Char) (rest : List Char) : Option (List Char × List Char) :=
  if q.escapes ∧ c = '\\' then escape? q.lines rest
  else match lineBreak? (c :: rest) with
    | some rest => if q.lines then some (['\n'], rest) else none
    | none => if isPlain c then some ([c], rest) else none

theorem length_skipLines_le (text : List Char) : (skipLines text).length ≤ text.length := by
  fun_induction skipLines text <;> simp_all <;> omega

theorem length_lineBreak? {text rest : List Char} (h : lineBreak? text = some rest) :
    rest.length < text.length := by
  fun_cases lineBreak? text
  · next r => simp_all [lineBreak?]
  · next r =>
    simp only [lineBreak?, Option.some.injEq] at h
    simp only [h, List.length_cons]
    omega
  · simp_all [lineBreak?]

theorem length_hexChar? {count : Nat} {text rest : List Char} {c : Char}
    (h : hexChar? count text = some (c, rest)) : rest.length ≤ text.length := by
  simp only [hexChar?, Option.bind_eq_bind, Option.bind_eq_some_iff] at h
  obtain ⟨digits, -, h⟩ := h
  split at h
  · simp only [Option.some.injEq, Prod.mk.injEq] at h
    rw [← h.2, List.length_drop]
    omega
  · simp at h

theorem length_escape? {lines : Bool} {text unit rest : List Char}
    (h : escape? lines text = some (unit, rest)) : rest.length ≤ text.length := by
  simp only [escape?] at h
  split at h
  · simp at h
  · next c tail =>
    split at h
    · simp only [Option.some.injEq, Prod.mk.injEq] at h
      simp [h.2]
    · split at h
      · simp only [Option.map_eq_some_iff] at h
        obtain ⟨⟨c, r⟩, h, heq⟩ := h
        have := length_hexChar? h
        simp_all
        omega
      · split at h
        · simp only [Option.map_eq_some_iff] at h
          obtain ⟨⟨c, r⟩, h, heq⟩ := h
          have := length_hexChar? h
          simp_all
          omega
        · split at h
          · simp only [Option.map_eq_some_iff, Prod.mk.injEq] at h
            obtain ⟨r, h, -, rfl⟩ := h
            have hbreak := length_lineBreak? h
            have hskip := length_skipLines_le r
            have hdrop := (List.dropWhile_sublist isSpace (l := c :: tail)).length_le
            omega
          · simp at h

/-- A unit takes at least one character. -/
theorem length_unit? {q : Quoting} {c : Char} {rest unit rest' : List Char}
    (h : q.unit? c rest = some (unit, rest')) : rest'.length ≤ rest.length := by
  simp only [unit?] at h
  split at h
  · exact length_escape? h
  · split at h
    · next hbreak =>
      have hlt := length_lineBreak? hbreak
      split at h
      · simp only [Option.some.injEq, Prod.mk.injEq] at h
        rw [← h.2]
        exact Nat.le_of_lt_succ hlt
      · simp at h
    · split at h
      · simp only [Option.some.injEq, Prod.mk.injEq] at h
        exact Nat.le_of_eq (congrArg List.length h.2.symm)
      · simp at h

/-- Reads the body of a text up to its closing marks: the text, and what
remains after them. `marks` marks were just seen; whether they close the
text shows in what follows. -/
def body (q : Quoting) (marks : Nat) (text : List Char) : Option (List Char × List Char) :=
  match text with
  | [] => if q.width ≤ marks then some (List.replicate (marks - q.width) q.mark, []) else none
  | c :: rest =>
    if c = q.mark ∧ marks < q.width + q.slack then q.body (marks + 1) rest
    -- the marks before the last ones belong to the text
    else if q.width ≤ marks then some (List.replicate (marks - q.width) q.mark, c :: rest)
    else match _h : q.unit? c rest with
      | none => none
      | some (unit, rest) =>
        (q.body 0 rest).map fun (read, rest) => (List.replicate marks q.mark ++ unit ++ read, rest)
termination_by text.length
decreasing_by
  · simp
  · exact Nat.lt_succ_of_le (length_unit? _h)

/-- Whether the text after an opening mark goes on with two more. -/
def opens (mark : Char) (text : List Char) : Bool := text.take 2 == [mark, mark]

/-- Reads a text of one line that starts with its mark. -/
def line? : List Char → Option (List Char × List Char)
  | c :: rest =>
    if c = '"' then body ⟨true, false⟩ 0 rest
    else if c = apostrophe then body ⟨false, false⟩ 0 rest
    else none
  | [] => none

/-- Reads a text of several lines that starts with its marks. A line break
right after them does not count. -/
def lines? (q : Quoting) (text : List Char) : Option (List Char × List Char) :=
  let inner := text.drop q.width
  q.body 0 ((lineBreak? inner).getD inner)

/-- Reads a text that starts with its marks, in any form. -/
def read? : List Char → Option (List Char × List Char)
  | c :: rest =>
    if opens c rest then lines? ⟨c == '"', true⟩ (c :: rest) else line? (c :: rest)
  | [] => none

end Quoting

/-! ## Writing -/

/-- The longest run of `c` in `text`, of which `run` came just before. -/
def longestRun (c : Char) (run : Nat) : List Char → Nat
  | [] => run
  | d :: rest => if d = c then longestRun c (run + 1) rest else max run (longestRun c 0 rest)

/-- Some character can only be written as an escape. A line break and a
tab can be written otherwise. -/
def needsEscape (text : List Char) : Bool :=
  text.any fun c => !isPlain c && c ≠ '\n'

/-- The form in which a text is written: quotation marks if nothing has to
be escaped, else apostrophes if they do, then three marks likewise, and
last of all escapes. -/
def Quoting.choose (text : List Char) : Quoting :=
  let marks := longestRun '"' 0 text
  let apostrophes := longestRun apostrophe 0 text
  let escapes := needsEscape text
  let backslash := text.contains '\\'
  let broken := text.contains '\n'
  if !escapes && !backslash && marks = 0 && !broken then ⟨true, false⟩
  else if !escapes && apostrophes = 0 && !broken then ⟨false, false⟩
  else if !escapes && !backslash && marks ≤ 2 then ⟨true, true⟩
  else if !escapes && apostrophes ≤ 2 then ⟨false, true⟩
  else ⟨true, broken⟩

/-- Four upper-case hexadecimal digits. -/
def hexDigits (n : Nat) : List Char :=
  [n / 4096 % 16, n / 256 % 16, n / 16 % 16, n % 16].map fun d => (Nat.digitChar d).toUpper

/-- A character in text with escapes. Marks are written elsewhere. -/
def writtenChar (lines : Bool) (c : Char) : List Char :=
  if c = '\n' ∧ lines then [c]
  else match shortEscapes.find? (·.1 == c) with
    | some (_, letter) => ['\\', letter]
    | none => if isPlain c then [c] else ['\\', 'u'] ++ hexDigits c.toNat

/-- Text with escapes. `marks` marks were just written, of which no more
than `slack` stand in a row. -/
def writtenBody (lines : Bool) (slack marks : Nat) : List Char → List Char
  | [] => []
  | c :: rest =>
    if c = '"' then
      if marks < slack then c :: writtenBody lines slack (marks + 1) rest
      else ['\\', c] ++ writtenBody lines slack 0 rest
    else writtenChar lines c ++ writtenBody lines slack 0 rest

/-- A text in a given form. If it has several lines, they start on a line
of their own. -/
def Quoting.write (q : Quoting) (text : List Char) : List Char :=
  let marks := List.replicate q.width q.mark
  let start := if q.lines ∧ text.contains '\n' then ['\n'] else []
  let inner := if q.escapes then writtenBody q.lines q.slack 0 text else text
  marks ++ start ++ inner ++ marks

/-- A text as it is written. -/
def quote (text : List Char) : List Char := (Quoting.choose text).write text

end Toml

end TreeCompare
