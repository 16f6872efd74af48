/-!
# UTF-8

Names and paths are bytes; this file reads them as text. `pieces` cuts
bytes into scalar values and maximal ill-formed parts, `decode?` accepts
the bytes that hold no ill-formed part, and `lossy` replaces every
ill-formed part by one replacement character. `encode` writes scalar
values. Nothing is lost by cutting (`flatten_pieces`).
-/

namespace TreeCompare

namespace Utf8

/-- A stretch of bytes as UTF-8 sees it: a scalar value with the bytes
that spell it, or a maximal part that begins no well-formed spelling. -/
inductive Piece where
  | scalar (c : Char) (spelling : List UInt8)
  | illFormed (part : List UInt8)
deriving DecidableEq, Repr

/-- The bytes of a piece. -/
def Piece.bytes : Piece → List UInt8
  | scalar _ spelling => spelling
  | illFormed part => part

/-- What a leading byte promises: how many bytes follow, the bits it
contributes, and the range of the byte after it. -/
structure Lead where
  following : Nat
  bits : Nat
  low : Nat
  high : Nat
deriving DecidableEq, Repr

/-- The promise of a leading byte; no spelling starts with the others. -/
def lead? (b : UInt8) : Option Lead :=
  let n := b.toNat
  if n < 0x80 then some ⟨0, n, 0, 0⟩
  -- continuations, and leads whose every spelling is too long
  else if n < 0xC2 then none
  else if n < 0xE0 then some ⟨1, n - 0xC0, 0x80, 0xBF⟩
  else if n = 0xE0 then some ⟨2, 0, 0xA0, 0xBF⟩
  -- surrogates have no spelling
  else if n = 0xED then some ⟨2, n - 0xE0, 0x80, 0x9F⟩
  else if n < 0xF0 then some ⟨2, n - 0xE0, 0x80, 0xBF⟩
  else if n = 0xF0 then some ⟨3, 0, 0x90, 0xBF⟩
  else if n < 0xF4 then some ⟨3, n - 0xF0, 0x80, 0xBF⟩
  -- nothing lies beyond U+10FFFF
  else if n = 0xF4 then some ⟨3, 4, 0x80, 0x8F⟩
  else none

/-- Reads the `following` bytes still owed after `seen`, the next of which
lies between `low` and `high`; the piece ends before the first byte that
does not fit. -/
def follow (seen : List UInt8) (bits low high : Nat) :
    (following : Nat) → List UInt8 → Piece × List UInt8
  | 0, rest => (.scalar (Char.ofNat bits) seen, rest)
  | _ + 1, [] => (.illFormed seen, [])
  | following + 1, b :: rest =>
    if low ≤ b.toNat ∧ b.toNat ≤ high then
      follow (seen ++ [b]) (bits * 64 + (b.toNat - 0x80)) 0x80 0xBF following rest
    else (.illFormed seen, b :: rest)

/-- The first piece of `b :: rest`, and what comes after it. -/
def next (b : UInt8) (rest : List UInt8) : Piece × List UInt8 :=
  match lead? b with
  | some l => follow [b] l.bits l.low l.high l.following rest
  | none => (.illFormed [b], rest)

theorem bytes_follow (seen : List UInt8) (bits low high k : Nat) (rest : List UInt8) :
    (follow seen bits low high k rest).1.bytes ++ (follow seen bits low high k rest).2 =
      seen ++ rest := by
  induction k generalizing seen bits low high rest with
  | zero => simp [follow, Piece.bytes]
  | succ k ih =>
    cases rest with
    | nil => simp [follow, Piece.bytes]
    | cons b rest =>
      simp only [follow]
      split
      · simp [ih]
      · simp [Piece.bytes]

theorem length_follow_le (seen : List UInt8) (bits low high k : Nat) (rest : List UInt8) :
    (follow seen bits low high k rest).2.length ≤ rest.length := by
  induction k generalizing seen bits low high rest with
  | zero => simp [follow]
  | succ k ih =>
    cases rest with
    | nil => simp [follow]
    | cons b rest =>
      simp only [follow]
      split
      · exact Nat.le_succ_of_le (ih ..)
      · exact Nat.le_refl _

/-- A piece and what follows it are the bytes it was cut from. -/
theorem bytes_next (b : UInt8) (rest : List UInt8) :
    (next b rest).1.bytes ++ (next b rest).2 = b :: rest := by
  simp only [next]
  split
  · simp [bytes_follow]
  · simp [Piece.bytes]

theorem length_next_le (b : UInt8) (rest : List UInt8) :
    (next b rest).2.length ≤ rest.length := by
  simp only [next]
  split
  · exact length_follow_le ..
  · exact Nat.le_refl _

/-- Bytes cut into pieces from left to right. -/
def pieces : List UInt8 → List Piece
  | [] => []
  | b :: rest => (next b rest).1 :: pieces (next b rest).2
termination_by bytes => bytes.length
decreasing_by exact Nat.lt_succ_of_le (length_next_le b rest)

/-- Cutting loses nothing: the pieces in order are the bytes. -/
theorem flatten_pieces (bytes : List UInt8) :
    (pieces bytes).flatMap Piece.bytes = bytes := by
  induction bytes using pieces.induct with
  | case1 => simp [pieces]
  | case2 b rest ih => rw [pieces, List.flatMap_cons, ih, bytes_next]

/-- The scalar value of a piece, if it is one. -/
def Piece.scalar? : Piece → Option Char
  | scalar c _ => some c
  | illFormed _ => none

/-- The scalar values that `bytes` spell, if they are well-formed
throughout. -/
def decode? (bytes : List UInt8) : Option (List Char) :=
  (pieces bytes).mapM Piece.scalar?

/-- The text of `bytes`, with U+FFFD for every ill-formed part. -/
def lossy (bytes : List UInt8) : List Char :=
  (pieces bytes).map fun p => p.scalar?.getD '\uFFFD'

/-- The bytes that spell `text`. -/
def encode (text : List Char) : List UInt8 :=
  text.flatMap String.utf8EncodeChar

end Utf8

end TreeCompare
