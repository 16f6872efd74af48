import TreeCompare.Text.Utf8
/-!
# Text is read back from its bytes

A scalar value is spelled by one to four bytes, the first of which promises the
others (`next_utf8EncodeChar`). So the pieces of encoded text are its scalar
values, and decoding gives the text (`decode?_encode`).
-/

namespace TreeCompare

namespace Utf8

/-! ## One scalar value -/

/-- A byte that lies between the bounds goes on with a spelling. -/
theorem follow_ofNat {seen rest : List UInt8} {bits low high k n : Nat} (h : n < 256)
    (hlow : low ≤ n) (hhigh : n ≤ high) :
    follow seen bits low high (k + 1) (UInt8.ofNat n :: rest) =
      follow (seen ++ [UInt8.ofNat n]) (bits * 64 + (n - 0x80)) 0x80 0xBF k rest := by
  rw [follow, UInt8.toNat_ofNat_of_lt' h, if_pos ⟨hlow, hhigh⟩]

theorem next_of_lead {b : UInt8} {l : Lead} (h : lead? b = some l) (rest : List UInt8) :
    next b rest = follow [b] l.bits l.low l.high l.following rest := by
  simp only [next, h]

theorem lead?_one {n : Nat} (h : n < 0x80) : lead? (UInt8.ofNat n) = some ⟨0, n, 0, 0⟩ := by
  simp only [lead?, UInt8.toNat_ofNat_of_lt' (show n < 256 by omega), h, if_true]

theorem lead?_two {n : Nat} (h : 2 ≤ n) (h' : n < 0x20) :
    lead? (UInt8.ofNat (n + 0xC0)) = some ⟨1, n, 0x80, 0xBF⟩ := by
  simp only [lead?, UInt8.toNat_ofNat_of_lt' (show n + 0xC0 < 256 by omega)]
  rw [if_neg (by omega), if_neg (by omega), if_pos (by omega), Nat.add_sub_cancel]

/-- The byte after the first of three excludes spellings that are too long, and
surrogates. -/
theorem lead?_three {n : Nat} (h : n < 0x10) :
    lead? (UInt8.ofNat (n + 0xE0)) =
      some ⟨2, n, if n = 0 then 0xA0 else 0x80, if n = 0xD then 0x9F else 0xBF⟩ := by
  simp only [lead?, UInt8.toNat_ofNat_of_lt' (show n + 0xE0 < 256 by omega)]
  rw [if_neg (by omega), if_neg (by omega), if_neg (by omega)]
  by_cases h0 : n = 0
  · rw [if_pos (by omega), if_pos h0, if_neg (by omega), h0]
  by_cases hd : n = 0xD
  · rw [if_neg (by omega), if_pos (by omega), if_neg h0, if_pos hd, Nat.add_sub_cancel]
  · rw [if_neg (by omega), if_neg (by omega), if_pos (by omega), if_neg h0, if_neg hd,
      Nat.add_sub_cancel]

/-- The byte after the first of four excludes spellings that are too long, and
what lies beyond all scalar values. -/
theorem lead?_four {n : Nat} (h : n < 5) :
    lead? (UInt8.ofNat (n + 0xF0)) =
      some ⟨3, n, if n = 0 then 0x90 else 0x80, if n = 4 then 0x8F else 0xBF⟩ := by
  simp only [lead?, UInt8.toNat_ofNat_of_lt' (show n + 0xF0 < 256 by omega)]
  rw [if_neg (by omega), if_neg (by omega), if_neg (by omega), if_neg (by omega),
    if_neg (by omega), if_neg (by omega)]
  by_cases h0 : n = 0
  · rw [if_pos (by omega), if_pos h0, if_neg (by omega), h0]
  by_cases h4 : n = 4
  · rw [if_neg (by omega), if_neg (by omega), if_pos (by omega), if_neg h0, if_pos h4, h4]
  · rw [if_neg (by omega), if_pos (by omega), if_neg h0, if_neg h4, Nat.add_sub_cancel]

/-- **The bytes that spell a scalar value are its piece.** -/
theorem next_utf8EncodeChar (c : Char) (rest : List UInt8) :
    ∃ b bytes, String.utf8EncodeChar c = b :: bytes ∧
      next b (bytes ++ rest) = (.scalar c (b :: bytes), rest) := by
  have hvalid : c.val.toNat < 0xD800 ∨ 0xDFFF < c.val.toNat ∧ c.val.toNat < 0x110000 := c.valid
  have hchar : Char.ofNat c.val.toNat = c := Char.ofNat_toNat c
  unfold String.utf8EncodeChar
  generalize c.val.toNat = v at hvalid hchar
  simp only
  split
  · refine ⟨_, _, rfl, ?_⟩
    rw [next_of_lead (lead?_one (by omega))]
    simp only [follow, hchar, List.nil_append]
  split
  · refine ⟨_, _, rfl, ?_⟩
    rw [next_of_lead (lead?_two (by omega) (by omega))]
    simp only [List.cons_append, List.nil_append]
    rw [follow_ofNat (by omega) (by omega) (by omega), follow,
      show v / 64 % 32 * 64 + (v % 64 + 128 - 128) = v by omega, hchar]
    rfl
  split
  · refine ⟨_, _, rfl, ?_⟩
    rw [next_of_lead (lead?_three (by omega))]
    simp only [List.cons_append, List.nil_append]
    rw [follow_ofNat (by omega) (by split <;> omega) (by split <;> omega),
      follow_ofNat (by omega) (by omega) (by omega), follow,
      show (v / 4096 % 16 * 64 + (v / 64 % 64 + 128 - 128)) * 64 + (v % 64 + 128 - 128) = v by
        omega, hchar]
    rfl
  · refine ⟨_, _, rfl, ?_⟩
    rw [next_of_lead (lead?_four (by omega))]
    simp only [List.cons_append, List.nil_append]
    rw [follow_ofNat (by omega) (by split <;> omega) (by split <;> omega),
      follow_ofNat (by omega) (by omega) (by omega), follow_ofNat (by omega) (by omega) (by omega),
      follow, show ((v / 262144 % 8 * 64 + (v / 4096 % 64 + 128 - 128)) * 64 +
        (v / 64 % 64 + 128 - 128)) * 64 + (v % 64 + 128 - 128) = v by omega, hchar]
    rfl

/-! ## Text -/

theorem pieces_encode (text : List Char) :
    pieces (encode text) = text.map fun c => .scalar c (String.utf8EncodeChar c) := by
  induction text with
  | nil => rw [encode, List.flatMap_nil, pieces, List.map_nil]
  | cons c text ih =>
    obtain ⟨b, bytes, hbytes, hnext⟩ := next_utf8EncodeChar c (encode text)
    have hencode : encode (c :: text) = b :: (bytes ++ encode text) := by
      rw [encode, List.flatMap_cons, hbytes]
      rfl
    rw [hencode, pieces, hnext, ih, List.map_cons, hbytes]

/-- **Text is read back from its bytes.** -/
theorem decode?_encode (text : List Char) : decode? (encode text) = some text := by
  rw [decode?, pieces_encode]
  induction text with
  | nil => rfl
  | cons c text ih =>
    rw [List.map_cons, List.mapM_cons, ih]
    rfl

end Utf8

end TreeCompare
