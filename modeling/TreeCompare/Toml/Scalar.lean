/-!
# Numbers and date-times in settings files

No setting is a number or a date-time, but a file may hold them under keys
of its own. `scalar?` takes one from the start of a text and says what
remains; what is spelled wrongly, or does not fit into 64 bits or the
calendar, is refused.
-/

namespace TreeCompare

namespace Toml

/-! ## Numbers -/

/-- Digits, and what remains after them. A low line may stand between two
digits. -/
def digitsAfter (isDigit : Char → Bool) : List Char → List Char × List Char
  | [] => ([], [])
  | [c] => if isDigit c then ([c], []) else ([], [c])
  | c :: d :: rest =>
    if isDigit c then
      let (digits, rest) := digitsAfter isDigit (d :: rest)
      (c :: digits, rest)
    else if c = '_' ∧ isDigit d then
      let (digits, rest) := digitsAfter isDigit rest
      (d :: digits, rest)
    else ([], c :: d :: rest)

/-- At least one digit, and what remains. -/
def digits? (isDigit : Char → Bool) : List Char → Option (List Char × List Char)
  | c :: rest =>
    if isDigit c then
      let (digits, rest) := digitsAfter isDigit rest
      some (c :: digits, rest)
    else none
  | [] => none

/-- The value of digits in a base. -/
def valueIn (base : Nat) (digits : List Char) : Nat :=
  digits.foldl (fun n c =>
    n * base + (if c.isDigit then c.toNat - 0x30 else c.toLower.toNat - 0x61 + 10)) 0

/-- Whether a number is negative, and what remains after its sign. -/
def sign : List Char → Bool × List Char
  | '-' :: rest => (true, rest)
  | '+' :: rest => (false, rest)
  | text => (false, text)

/-- A whole number without sign, in decimal. Only the number zero starts
with a zero. -/
def whole? : List Char → Option (List Char × List Char)
  | '0' :: rest => some (['0'], rest)
  | text => digits? Char.isDigit text

/-- The least whole number that is too large for 64 bits with a sign. -/
def wordLimit : Nat := Nat.pow 2 63

/-- The digits of a number in a base that its prefix named. -/
def prefixed? (base : Nat) (isDigit : Char → Bool) (text : List Char) : Option (List Char) :=
  match digits? isDigit text with
  | some (digits, rest) => if valueIn base digits < wordLimit then some rest else none
  | none => none

/-- A hexadecimal digit. -/
def isHexDigit (c : Char) : Bool :=
  c.isDigit || ('a' ≤ c && c ≤ 'f') || ('A' ≤ c && c ≤ 'F')

/-- What remains after a whole number. -/
def integer? (text : List Char) : Option (List Char) :=
  match text with
  | '0' :: 'x' :: rest => prefixed? 16 isHexDigit rest
  | '0' :: 'o' :: rest => prefixed? 8 (fun c => '0' ≤ c && c ≤ '7') rest
  | '0' :: 'b' :: rest => prefixed? 2 (fun c => c = '0' || c = '1') rest
  | _ =>
    let (negative, rest) := sign text
    match whole? rest with
    | some (digits, rest) =>
      if valueIn 10 digits < wordLimit + (if negative then 1 else 0) then some rest else none
    | none => none

/-- The least number that is too large for a binary fraction of 64 bits. -/
def tooLarge : Nat := Nat.pow 2 1024 - Nat.pow 2 970

/-- Whether the number spelled by `digits` with the point moved by `shift`
places fits into a binary fraction of 64 bits. -/
def fits (digits : List Char) (shift : Int) : Bool :=
  let significant := digits.dropWhile (· = '0')
  let places := significant.length + shift
  if significant = [] ∨ places ≤ 308 then true
  else if 309 < places then false
  else valueIn 10 significant * Nat.pow 10 shift.toNat < tooLarge * Nat.pow 10 (-shift).toNat

/-- What remains after a fraction: digits with a point, an exponent or
both, or one of the two words for what is no number. -/
def fraction? (text : List Char) : Option (List Char) :=
  let (negative, unsigned) := sign text
  match unsigned with
  | 'i' :: 'n' :: 'f' :: rest => some rest
  | 'n' :: 'a' :: 'n' :: rest => some rest
  | _ => do
    let (whole, rest) ← whole? unsigned
    let (places, rest) ←
      match rest with
      | '.' :: rest => digits? Char.isDigit rest
      | _ => some ([], rest)
    let scaled (rest : List Char) : Option (List Char) := do
      let (down, rest) := sign rest
      let (exponent, rest) ← digits? Char.isDigit rest
      let n : Int := valueIn 10 exponent
      let shift := (if down then -n else n) - places.length
      if negative || fits (whole ++ places) shift then some rest else none
    match rest with
    | 'e' :: rest => scaled rest
    | 'E' :: rest => scaled rest
    | _ =>
      if places ≠ [] ∧ (negative || fits (whole ++ places) (-places.length)) then some rest
      else none

/-! ## Date-times -/

/-- A number of exactly `count` digits between two bounds. -/
def number? (count low high : Nat) (text : List Char) : Option (Nat × List Char) :=
  let digits := text.take count
  let n := valueIn 10 digits
  if digits.length = count ∧ digits.all Char.isDigit ∧ low ≤ n ∧ n ≤ high then
    some (n, text.drop count)
  else none

/-- What remains after a given character. -/
def after? (c : Char) : List Char → Option (List Char)
  | d :: rest => if d = c then some rest else none
  | [] => none

/-- How many days a month has. -/
def daysIn (year month : Nat) : Nat :=
  if month = 2 then if year % 4 = 0 ∧ (year % 100 ≠ 0 ∨ year % 400 = 0) then 29 else 28
  else if month ∈ [4, 6, 9, 11] then 30
  else 31

/-- What remains after a date. -/
def date? (text : List Char) : Option (List Char) := do
  let (year, text) ← number? 4 0 9999 text
  let text ← after? '-' text
  let (month, text) ← number? 2 1 12 text
  let text ← after? '-' text
  let (_, text) ← number? 2 1 (daysIn year month) text
  return text

/-- What remains after a time of day, to the second or finer. A minute may
have a leap second. -/
def time? (text : List Char) : Option (List Char) := do
  let (_, text) ← number? 2 0 23 text
  let text ← after? ':' text
  let (_, text) ← number? 2 0 59 text
  let text ← after? ':' text
  let (_, text) ← number? 2 0 60 text
  match text with
  | '.' :: rest =>
    if (rest.takeWhile Char.isDigit) = [] then return text else return rest.dropWhile Char.isDigit
  | _ => return text

/-- What remains after a distance from universal time. -/
def offset? (text : List Char) : Option (List Char) :=
  match text with
  | 'Z' :: rest => some rest
  | 'z' :: rest => some rest
  | c :: rest => do
    if c = '+' ∨ c = '-' then
      let (_, rest) ← number? 2 0 23 rest
      let rest ← after? ':' rest
      let (_, rest) ← number? 2 0 59 rest
      return rest
    else none
  | [] => none

/-- What remains after a date, a time of day, or both. -/
def moment? (text : List Char) : Option (List Char) :=
  match date? text with
  | none => time? text
  | some rest =>
    match rest with
    | c :: later =>
      if c = 'T' ∨ c = 't' ∨ c = ' ' then
        match time? later with
        | some rest => some ((offset? rest).getD rest)
        | none => some rest
      else some rest
    | [] => some []

/-! ## Both -/

/-- The spelling of the number or date-time that a text starts with, and
what remains. -/
def scalar? (text : List Char) : Option (List Char × List Char) :=
  ((moment? text).or ((fraction? text).or (integer? text))).map fun rest =>
    (text.take (text.length - rest.length), rest)

end Toml

end TreeCompare
