import TreeCompare.Text.LetterCase
/-!
# Lower-casing

`lowercase` is full Unicode lower-casing of a text: every letter becomes
its lower-case form, `İ` becomes two scalar values, and a capital sigma
becomes the final form `ς` at the end of a word and `σ` elsewhere.
-/

namespace TreeCompare

namespace LetterCase

/-- A letter that has case. -/
def isCased (c : Char) : Bool := inRanges c.toNat casedRanges

/-- A character that the search for a cased neighbour passes over. -/
def isCaseIgnorable (c : Char) : Bool := inRanges c.toNat caseIgnorableRanges

/-- The lower-case form of `n` according to the increasing `runs`. -/
def lowercaseIn (n : Nat) : List LowercaseRun → Nat
  | [] => n
  | run :: runs =>
    if n < run.first then n
    else if n ≤ run.last ∧ (n - run.first) % run.step = 0 then (n + run.offset).toNat
    else lowercaseIn n runs

/-- The lower-case form of one character, out of context. -/
def lowercaseChar (c : Char) : List Char :=
  if c = 'İ' then ['i', '\u0307'] else [Char.ofNat (lowercaseIn c.toNat lowercaseRuns)]

/-- Whether the first character that is not case-ignorable has case. -/
def casedNext : List Char → Bool
  | [] => false
  | c :: text => if isCaseIgnorable c then casedNext text else isCased c

/-- A capital sigma ends a word when a cased letter precedes it and none
follows; `before` is what precedes it, nearest first. -/
def lowercaseSigma (before after : List Char) : Char :=
  if casedNext before && !casedNext after then 'ς' else 'σ'

/-- The lower-case form of `text`, where `before` is the text already
passed, nearest first. -/
def lowercaseAfter (before : List Char) : List Char → List Char
  | [] => []
  | c :: text =>
    (if c = 'Σ' then [lowercaseSigma before text] else lowercaseChar c) ++
      lowercaseAfter (c :: before) text

/-- The lower-case form of a text. -/
def lowercase (text : List Char) : List Char :=
  lowercaseAfter [] text

end LetterCase

end TreeCompare
