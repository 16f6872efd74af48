import TreeCompare.Toml.Item
import TreeCompare.Toml.Quoted
import TreeCompare.Toml.Scalar
/-!
# Reading settings files

`Table.ofText?` reads a TOML file: line by line, assignments of values to
keys and headers of tables. A text that is no such file is refused as a
whole.
-/

namespace TreeCompare

namespace Toml

/-- How many parts a key has at most, and how many lists and tables stand
within one another. -/
def nestingLimit : Nat := 79

/-- A brace that opens a table. -/
def openBrace : Char := Char.ofNat 0x7B

/-- A brace that closes a table. -/
def closeBrace : Char := Char.ofNat 0x7D

/-! ## Between the values -/

/-- What remains after the end of a line. Space and a comment may come
before it; the end of the text is one, too. -/
def lineEnd? (comment : Bool) : List Char → Option (List Char)
  | [] => some []
  | '\n' :: rest => some rest
  | '\r' :: '\n' :: rest => some rest
  | c :: rest =>
    if comment then if isPlain c then lineEnd? true rest else none
    else if isSpace c then lineEnd? false rest
    else if c = '#' then lineEnd? true rest
    else none

/-- Leaves out space, line breaks and comments; a comment ends with its
line. -/
def skipBlanks? (comment : Bool) : List Char → Option (List Char)
  | [] => if comment then none else some []
  | '\n' :: rest => skipBlanks? false rest
  | '\r' :: '\n' :: rest => skipBlanks? false rest
  | c :: rest =>
    if comment then if isPlain c then skipBlanks? true rest else none
    else if isSpace c then skipBlanks? false rest
    else if c = '#' then skipBlanks? true rest
    else some (c :: rest)

/-- Leaves out space. -/
def skipSpace (text : List Char) : List Char := text.dropWhile isSpace

/-! ## Keys -/

/-- A character of a key without marks. -/
def isKeyChar (c : Char) : Bool := c.isAlphanum || c = '_' || c = '-'

/-- One part of a key. -/
def keyPart? : List Char → Option (String × List Char)
  | [] => none
  | c :: rest =>
    if c = '"' ∨ c = apostrophe then
      (Quoting.line? (c :: rest)).map fun (text, rest) => (String.ofList text, rest)
    else if isKeyChar c then
      some (String.ofList ((c :: rest).takeWhile isKeyChar), (c :: rest).dropWhile isKeyChar)
    else none

/-- A key of at most `limit` parts with dots between them, and space
around each of them. -/
def key? : (limit : Nat) → List Char → Option (List String × List Char)
  | 0, _ => none
  | limit + 1, text => do
    let (part, rest) ← keyPart? (skipSpace text)
    match skipSpace rest with
    | '.' :: rest => (key? limit rest).map fun (parts, rest) => (part :: parts, rest)
    | rest => some ([part], rest)

/-! ## Values -/

/-- The items of a list up to its closing bracket. -/
def items? (item? : List Char → Option (Item × List Char)) (text : List Char) :
    Option (List Item × List Char) :=
  match skipBlanks? false text with
  | none => none
  | some (']' :: rest) => some ([], rest)
  | some start =>
    match item? start with
    | none => none
    | some (item, rest) =>
      match skipBlanks? false rest with
      | some (',' :: rest) =>
        if rest.length < text.length then
          (items? item? rest).map fun (items, rest) => (item :: items, rest)
        else none
      | some (']' :: rest) => some ([item], rest)
      | _ => none
termination_by text.length

/-- A key and its value. -/
def assignment? (item? : List Char → Option (Item × List Char)) (text : List Char) :
    Option ((List String × String × Item) × List Char) := do
  let (parts, rest) ← key? nestingLimit text
  let rest ← after? '=' rest
  let (item, rest) ← item? (skipSpace rest)
  let key ← parts.getLast?
  return ((parts.dropLast, key, item), rest)

/-- The assignments of a table up to its closing brace, of which there is
at least one; they stand on one line. -/
def entries? (item? : List Char → Option (Item × List Char)) (t : Table) (text : List Char) :
    Option (Table × List Char) :=
  match assignment? item? text with
  | none => none
  | some ((path, key, item), rest) =>
    match t.assign path key item with
    | none => none
    | some t =>
      match skipSpace rest with
      | ',' :: rest => if rest.length < text.length then entries? item? t rest else none
      | c :: rest => if c = closeBrace then some (t, rest) else none
      | [] => none
termination_by text.length

/-- The value that a text starts with. At most `depth` lists and tables
stand within one another. -/
def item? (depth : Nat) (text : List Char) : Option (Item × List Char) :=
  match text with
  | [] => none
  | c :: rest =>
    if c = '"' ∨ c = apostrophe then
      (Quoting.read? text).map fun (content, rest) => (.text (String.ofList content), rest)
    else if c = '[' then
      match depth with
      | 0 => none
      | depth + 1 => (items? (item? depth) rest).map fun (items, rest) => (.list items, rest)
    else if c = openBrace then
      match depth with
      | 0 => none
      | depth + 1 =>
        if (skipSpace rest).head? = some closeBrace then
          some (.inline [], (skipSpace rest).tail)
        else (entries? (item? depth) [] rest).map fun (t, rest) => (.inline t, rest)
    else if c = 't' then
      (['r', 'u', 'e'].isPrefixOf? rest).map fun rest => (.boolean true, rest)
    else if c = 'f' then
      (['a', 'l', 's', 'e'].isPrefixOf? rest).map fun rest => (.boolean false, rest)
    else (scalar? text).map fun (spelling, rest) => (.scalar (String.ofList spelling), rest)

/-! ## Lines -/

/-- The statement that a text starts with. -/
def statement? (text : List Char) : Option (Statement × List Char) :=
  match text with
  | '[' :: '[' :: rest => do
    let (parts, rest) ← key? nestingLimit rest
    let rest ← after? ']' rest
    let rest ← after? ']' rest
    let key ← parts.getLast?
    return (.elementHeader parts.dropLast key, rest)
  | '[' :: rest => do
    let (parts, rest) ← key? nestingLimit rest
    let rest ← after? ']' rest
    let key ← parts.getLast?
    return (.tableHeader parts.dropLast key, rest)
  | _ => do
    let ((path, key, item), rest) ← assignment? (item? nestingLimit) text
    return (.assignment path key item, rest)

/-- The statements of a text. A line holds one, or nothing but a comment. -/
def statements? (text : List Char) : Option (List Statement) :=
  match skipSpace text with
  | [] => some []
  | c :: line =>
    let first : Option (List Statement × List Char) :=
      if c = '#' ∨ c = '\n' ∨ c = '\r' then some ([], c :: line)
      else (statement? (c :: line)).map fun (s, rest) => ([s], rest)
    match first with
    | none => none
    | some (first, rest) =>
      match lineEnd? false rest with
      | none => none
      | some rest =>
        if rest.length < text.length then (statements? rest).map (first ++ ·) else none
termination_by text.length

/-- The mark that a text may start with to show its encoding. -/
def byteOrderMark : Char := Char.ofNat 0xFEFF

/-- The table that a text stands for. -/
def Table.ofText? (text : List Char) : Option Table :=
  (statements? (if text.head? = some byteOrderMark then text.tail else text)).bind
    Table.ofStatements?

end Toml

end TreeCompare
