import TreeCompare.Text.Unshown
import TreeCompare.Text.Utf8
/-!
# Quoted text

`quoted` writes bytes between double quotes so that every byte can be told
from the result: quotes and backslashes are escaped, so are characters that
would not show as themselves, and bytes that are no UTF-8 are written in
hexadecimal.
-/

namespace TreeCompare

/-- The digits of `n` in a base up to 16, in lower case. -/
def digitsIn (base n : Nat) : List Char := Nat.toDigits base n

/-- A byte as two upper-case hexadecimal digits. -/
def hexByte (b : UInt8) : List Char :=
  let digits := (digitsIn 16 b.toNat).map Char.toUpper
  List.replicate (2 - digits.length) '0' ++ digits

/-- A character between double quotes. -/
def quotedChar (c : Char) : List Char :=
  if c = '\t' then ['\\', 't']
  else if c = '\n' then ['\\', 'n']
  else if c = '\r' then ['\\', 'r']
  else if c = Char.ofNat 0 then ['\\', '0']
  else if c = '"' ∨ c = '\\' ∨ c.toNat = 0x27 then ['\\', c]
  else if isUnshown c then
    ['\\', 'u', Char.ofNat 0x7B] ++ digitsIn 16 c.toNat ++ [Char.ofNat 0x7D]
  else [c]

/-- A piece of text between double quotes. -/
def Utf8.Piece.quoted : Utf8.Piece → List Char
  | scalar c _ => quotedChar c
  | illFormed part => part.flatMap fun b => ['\\', 'x'] ++ hexByte b

/-- The bytes, readable, between double quotes. -/
def quoted (bytes : List UInt8) : String :=
  String.ofList ('"' :: (Utf8.pieces bytes).flatMap Utf8.Piece.quoted ++ ['"'])

end TreeCompare
