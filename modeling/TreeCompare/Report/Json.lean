/-!
# JSON text

JSON values as a report needs them, and their text with a line for every
item and two spaces of indentation for every level (`Json.toText`).
-/

namespace TreeCompare

/-- A JSON value. -/
inductive Json where
  | null
  | number (n : Nat)
  | text (content : String)
  | list (items : List Json)
  | object (fields : List (String × Json))

namespace Json

/-- Characters that are written as a backslash and a letter, with the
letter. -/
def shortEscapes : List (Char × Char) :=
  [('"', '"'), ('\\', '\\'), (Char.ofNat 0x08, 'b'), (Char.ofNat 0x0C, 'f'), ('\n', 'n'),
    ('\r', 'r'), ('\t', 't')]

/-- A character between quotation marks. Control characters are escaped,
the others but the marks stand for themselves. -/
def writtenChar (c : Char) : List Char :=
  match shortEscapes.find? (·.1 == c) with
  | some (_, letter) => ['\\', letter]
  | none =>
    if c.toNat < 0x20 then
      ['\\', 'u', '0', '0', Nat.digitChar (c.toNat / 16), Nat.digitChar (c.toNat % 16)]
    else [c]

/-- A text between quotation marks. -/
def quote (content : String) : List Char :=
  '"' :: content.toList.flatMap writtenChar ++ ['"']

/-- The start of a line at a level. -/
def newLine (level : Nat) : List Char := '\n' :: List.replicate (2 * level) ' '

/-- Items between brackets, a line for each of them. -/
def enclose (opening closing : Char) (level : Nat) (items : List (List Char)) : List Char :=
  match items with
  | [] => [opening, closing]
  | first :: others =>
    opening :: newLine (level + 1) ++ first ++
      others.flatMap (fun item => ',' :: newLine (level + 1) ++ item) ++
      newLine level ++ [closing]

mutual

/-- The text of a value whose first line stands at a level. -/
def write (level : Nat) : Json → List Char
  | null => "null".toList
  | number n => (toString n).toList
  | text content => quote content
  | list items => enclose '[' ']' level (writeItems (level + 1) items)
  | object fields =>
    enclose (Char.ofNat 0x7B) (Char.ofNat 0x7D) level (writeFields (level + 1) fields)

/-- The texts of the items of a list. -/
def writeItems (level : Nat) : List Json → List (List Char)
  | [] => []
  | item :: items => item.write level :: writeItems level items

/-- The texts of the fields of an object. -/
def writeFields (level : Nat) : List (String × Json) → List (List Char)
  | [] => []
  | (key, value) :: fields =>
    (quote key ++ [':', ' '] ++ value.write level) :: writeFields level fields

end

/-- The text of a value. -/
def toText (j : Json) : String := String.ofList (j.write 0)

end Json

end TreeCompare
