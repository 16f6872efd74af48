import TreeCompare.Name
/-!
# Globs

The pattern language of exclusion lines: `?`, `*`, `**` as a whole
component, classes in brackets, alternatives in braces and `\` before a
literal character. `Glob.parse` reads a pattern into tokens. A class that
is never closed is no class: its bracket stands for itself, and so do all
brackets after it. A step of reading takes one character and what belongs
to it (`Glob.Reading.step`), so what is left gets shorter (`length_step`).
-/

namespace TreeCompare

namespace Exclusion

/-- One element of a glob. -/
inductive Token where
  /-- This character. -/
  | literal (c : Char)
  /-- One byte that is no separator, `?`. -/
  | any
  /-- Bytes that are no separators, `*`. -/
  | many
  /-- Leading directories, a leading `**/`. -/
  | leadingDirs
  /-- Everything below a directory, a closing `/**`. -/
  | allBelow
  /-- Directories in between, `/**/`. -/
  | innerDirs
  /-- One byte of a class, or one that is not. -/
  | class (negated : Bool) (ranges : List (Char × Char))
  /-- One of several alternatives. -/
  | group (alternatives : List (List Token))
deriving Repr

/-- A token that is a character. -/
def Token.isLiteral : Token → Bool
  | literal _ => true
  | _ => false

/-- A glob is the sequence of its tokens. -/
abbrev Glob := List Token

/-- Why a pattern is no glob. -/
inductive GlobError where
  /-- A closing brace without an opening one. -/
  | unopenedGroup
  /-- An opening brace without a closing one. -/
  | unclosedGroup
  /-- A range of a class whose ends are in the wrong order. -/
  | reversedRange (low high : Char)
  /-- A backslash at the very end. -/
  | danglingEscape
deriving DecidableEq, Repr

/-- The text of a glob error. -/
def GlobError.message : GlobError → String
  | unopenedGroup =>
    "unopened alternate group; missing '\x7b' (maybe escape '\x7d' with '[\x7d]'?)"
  | unclosedGroup =>
    "unclosed alternate group; missing '\x7d' (maybe escape '\x7b' with '[\x7b]'?)"
  | reversedRange low high =>
    "invalid range; '" ++ low.toString ++ "' > '" ++ high.toString ++ "'"
  | danglingEscape => "dangling '\\'"

namespace Glob

/-- What has been read of a class: whether nothing has been read yet,
whether a `-` waits for the end of a range, and the ranges, the latest
first. -/
structure ClassReading where
  first : Bool
  inRange : Bool
  ranges : List (Char × Char)

/-- One more character of a class. -/
def ClassReading.add (r : ClassReading) (c : Char) : Except GlobError ClassReading :=
  if r.inRange then
    match r.ranges with
    | (low, _) :: ranges =>
      if c < low then .error (.reversedRange low c)
      else .ok ⟨false, false, (low, c) :: ranges⟩
    | [] => .ok ⟨false, false, [(c, c)]⟩
  else if c = '-' ∧ !r.first then .ok { r with inRange := true }
  else .ok ⟨false, false, (c, c) :: r.ranges⟩

/-- Reads the rest of a class: its ranges and what follows its closing
bracket, or nothing if it is never closed. -/
def readClass (r : ClassReading) :
    List Char → Except GlobError (Option (List (Char × Char) × List Char))
  | [] => .ok none
  | c :: rest =>
    if c = ']' ∧ !r.first then
      .ok (some ((if r.inRange then ('-', '-') :: r.ranges else r.ranges).reverse, rest))
    else match r.add c with
      | .error e => .error e
      | .ok r => readClass r rest

theorem length_readClass {r : ClassReading} {text rest : List Char}
    {ranges : List (Char × Char)} (h : readClass r text = .ok (some (ranges, rest))) :
    rest.length ≤ text.length := by
  induction text generalizing r with
  | nil => simp [readClass] at h
  | cons c text ih =>
    simp only [readClass] at h
    split at h
    · simp only [Except.ok.injEq, Option.some.injEq, Prod.mk.injEq] at h
      simp [← h.2]
    · split at h
      · simp at h
      · exact Nat.le_succ_of_le (ih h)

/-- A group that is being read: the alternatives it has so far and the
tokens in front of it, both the latest first. -/
structure OpenGroup where
  alternatives : List Glob
  before : List Token

/-- What has been read of a pattern: the tokens of the current
alternative, the latest first, the groups it stands in, the innermost
first, the last character, and whether classes are still recognised. -/
structure Reading where
  tokens : List Token
  groups : List OpenGroup
  previous : Option Char
  classes : Bool

/-- Nothing has been read. -/
def Reading.start : Reading := ⟨[], [], none, true⟩

/-- One more token, read up to the character `c`. -/
def Reading.push (r : Reading) (t : Token) (c : Char) : Reading :=
  { r with tokens := t :: r.tokens, previous := some c }

/-- Two stars that are not a component of their own. -/
def Reading.plainStars (r : Reading) : Reading :=
  { r with tokens := .many :: .many :: r.tokens, previous := some '*' }

/-- The token `t` for `**` in place of the separator before it; leading
directories and everything below a directory stay what they are. -/
def Reading.absorbSeparator (r : Reading) (t : Token) (c : Char) : Reading :=
  match r.tokens with
  | .leadingDirs :: _ | .allBelow :: _ => { r with previous := some c }
  | _ :: tokens => { r with tokens := t :: tokens, previous := some c }
  | [] => { r with tokens := [t], previous := some c }

/-- What two stars mean, given what follows them, and what then is left to
read. -/
def Reading.stars (r : Reading) (rest : List Char) : Reading × List Char :=
  let component : Bool := r.previous == some '/' ||
    (!r.groups.isEmpty && (r.previous == some ',' || r.previous == some (Char.ofNat 0x7B)))
  match rest with
  | [] =>
    if r.tokens.isEmpty then (r.push .leadingDirs '*', [])
    else if component then (r.absorbSeparator .allBelow '*', [])
    else (r.plainStars, [])
  | c :: tail =>
    if r.tokens.isEmpty then
      if c = '/' then (r.push .leadingDirs '/', tail) else (r.plainStars, c :: tail)
    else if component then
      if c = '/' then (r.absorbSeparator .innerDirs '/', tail)
      else if (c = ',' ∨ c = Char.ofNat 0x7D) ∧ !r.groups.isEmpty then
        (r.absorbSeparator .allBelow '*', c :: tail)
      else (r.plainStars, c :: tail)
    else (r.plainStars, c :: tail)

theorem length_stars (r : Reading) (rest : List Char) :
    (r.stars rest).2.length ≤ rest.length := by
  simp only [Reading.stars]
  repeat' split
  all_goals simp

/-- An opening brace: a group begins. -/
def Reading.openGroup (r : Reading) : Reading :=
  { r with
    tokens := []
    groups := ⟨[], r.tokens⟩ :: r.groups
    previous := some (Char.ofNat 0x7B) }

/-- A comma: in a group the next alternative begins, elsewhere it stands
for itself. -/
def Reading.comma (r : Reading) : Reading :=
  match r.groups with
  | [] => r.push (.literal ',') ','
  | g :: groups =>
    { r with
      tokens := []
      groups := { g with alternatives := r.tokens.reverse :: g.alternatives } :: groups
      previous := some ',' }

/-- A closing brace: the innermost group is complete. -/
def Reading.closeGroup (r : Reading) : Except GlobError Reading :=
  match r.groups with
  | [] => .error .unopenedGroup
  | g :: groups =>
    .ok { r with
      tokens := .group (r.tokens.reverse :: g.alternatives).reverse :: g.before
      groups := groups
      previous := some (Char.ofNat 0x7D) }

/-- An opening bracket, given what follows it, and what then is left to
read. -/
def Reading.bracket (r : Reading) (rest : List Char) :
    Except GlobError (Reading × List Char) :=
  if r.classes then
    let negated := rest.head? == some '!' || rest.head? == some '^'
    match readClass ⟨true, false, []⟩ (if negated then rest.tail else rest) with
    | .error e => .error e
    | .ok (some (ranges, rest)) => .ok (r.push (.class negated ranges) ']', rest)
    | .ok none => .ok ({ r with classes := false }.push (.literal '[') '[', rest)
  else .ok (r.push (.literal '[') '[', rest)

/-- Reads the character `c` and as much of what follows it as belongs to
it, and gives what then is left to read. -/
def Reading.step (r : Reading) (c : Char) (rest : List Char) :
    Except GlobError (Reading × List Char) :=
  if c = '?' then .ok (r.push .any c, rest)
  else if c = '*' then
    match rest with
    | '*' :: rest => .ok (r.stars rest)
    | rest => .ok (r.push .many c, rest)
  else if c = '\\' then
    match rest with
    | [] => .error .danglingEscape
    | d :: rest => .ok (r.push (.literal d) d, rest)
  else if c = '[' then r.bracket rest
  else if c = ',' then .ok (r.comma, rest)
  else if c.toNat = 0x7B then .ok (r.openGroup, rest)
  else if c.toNat = 0x7D then r.closeGroup.map fun r => (r, rest)
  else .ok (r.push (.literal c) c, rest)

theorem length_bracket {r r' : Reading} {rest rest' : List Char}
    (h : r.bracket rest = .ok (r', rest')) : rest'.length ≤ rest.length := by
  simp only [Reading.bracket] at h
  split at h
  · split at h
    · cases h
    · next hclass =>
      cases h
      have hle := length_readClass hclass
      split at hle
      · simp only [List.length_tail] at hle
        omega
      · exact hle
    · cases h
      exact Nat.le_refl _
  · cases h
    exact Nat.le_refl _

/-- A step leaves no more than there was. -/
theorem length_step {r r' : Reading} {c : Char} {rest rest' : List Char}
    (h : r.step c rest = .ok (r', rest')) : rest'.length ≤ rest.length := by
  simp only [Reading.step] at h
  split at h
  · cases h
    exact Nat.le_refl _
  split at h
  · split at h
    · next tail =>
      have hle := length_stars r tail
      rw [Except.ok.inj h] at hle
      exact Nat.le_succ_of_le hle
    · cases h
      exact Nat.le_refl _
  split at h
  · split at h
    · cases h
    · cases h
      exact Nat.le_succ _
  split at h
  · exact length_bracket h
  split at h
  · cases h
    exact Nat.le_refl _
  split at h
  · cases h
    exact Nat.le_refl _
  split at h
  · cases hclose : r.closeGroup with
    | error e => simp [hclose, Except.map] at h
    | ok closed =>
      simp only [hclose, Except.map, Except.ok.injEq, Prod.mk.injEq] at h
      exact Nat.le_of_eq (congrArg List.length h.2.symm)
  · cases h
    exact Nat.le_refl _

/-- Reads the rest of a pattern. -/
def parseFrom (r : Reading) (text : List Char) : Except GlobError Glob :=
  match text with
  | [] => if r.groups.isEmpty then .ok r.tokens.reverse else .error .unclosedGroup
  | c :: rest =>
    match _h : r.step c rest with
    | .error e => .error e
    | .ok (r, rest) => parseFrom r rest
termination_by text.length
decreasing_by exact Nat.lt_succ_of_le (length_step _h)

/-- The glob that a pattern spells. -/
def parse (pattern : List Char) : Except GlobError Glob := parseFrom .start pattern

end Glob

end Exclusion

end TreeCompare
