import TreeCompare.Proofs.Text.Utf8
/-!
# How scalar values are spelled

A spelling is a leading byte and the continuations that it promises, which are
digits in base 64: as many as the value needs, so that there is one spelling of
each value (`utf8EncodeChar_eq`). Reading keeps to that: a piece that is a
scalar value is the spelling of it (`spelling_of_next`), and bytes that are read
as a text are those that it is written as (`decode?_eq_some`).
-/

namespace TreeCompare

namespace Utf8

/-! ## Leading bytes and continuations -/

/-- How many values so many digits in base 64 have room for. -/
def room : (count : Nat) → Nat
  | 0 => 1
  | count + 1 => room count * 64

/-- The bytes behind a leading byte: the last `count` digits of a value in base
64, each marked as a continuation. -/
def continuations : (count : Nat) → (value : Nat) → List UInt8
  | 0, _ => []
  | count + 1, value =>
    UInt8.ofNat (value / room count % 64 + 0x80) :: continuations count value

/-- What marks a leading byte that so many continuations follow. -/
def mark : (count : Nat) → Nat
  | 0 => 0
  | 1 => 0xC0
  | 2 => 0xE0
  | _ => 0xF0

/-- The least value that needs so many continuations. -/
def leastOf : (count : Nat) → Nat
  | 0 => 0
  | 1 => 0x80
  | 2 => 0x800
  | 3 => 0x10000
  | _ => 0x110000

/-- A leading byte: the digits of a value that no continuation has room for, and
the mark of how many follow. -/
def leading (count value : Nat) : Nat := value / room count + mark count

/-- The value needs so many continuations. -/
structure Needs (value count : Nat) : Prop where
  count_le : count ≤ 3
  least : leastOf count ≤ value
  lt : value < leastOf (count + 1)

theorem exists_needs (c : Char) : ∃ count, Needs c.toNat count := by
  have hvalid : c.toNat < 0xD800 ∨ 0xDFFF < c.toNat ∧ c.toNat < 0x110000 := c.valid
  by_cases h₁ : c.toNat < 0x80
  · exact ⟨0, by decide, Nat.zero_le _, h₁⟩
  by_cases h₂ : c.toNat < 0x800
  · exact ⟨1, by decide, Nat.not_lt.1 h₁, h₂⟩
  by_cases h₃ : c.toNat < 0x10000
  · exact ⟨2, by decide, Nat.not_lt.1 h₂, h₃⟩
  · exact ⟨3, by decide, Nat.not_lt.1 h₃, by simp only [leastOf]; omega⟩

/-- **How a scalar value is spelled**: by a leading byte and as many
continuations as it needs. -/
theorem utf8EncodeChar_eq {c : Char} {count : Nat} (h : Needs c.toNat count) :
    String.utf8EncodeChar c =
      UInt8.ofNat (leading count c.toNat) :: continuations count c.toNat := by
  obtain ⟨hcount, hleast, hlt⟩ := h
  simp only [Char.toNat] at hleast hlt
  simp only [String.utf8EncodeChar, Char.toNat, leading]
  generalize c.val.toNat = v at hleast hlt
  obtain rfl | rfl | rfl | rfl : count = 0 ∨ count = 1 ∨ count = 2 ∨ count = 3 := by omega
  all_goals simp only [leastOf] at hleast hlt
  all_goals simp only [continuations, mark, room, Nat.reduceMul, Nat.div_one]
  · rw [if_pos (by omega), Nat.add_zero]
  · rw [if_neg (by omega), if_pos (by omega), show v / 64 % 32 = v / 64 by omega]
  · rw [if_neg (by omega), if_neg (by omega), if_pos (by omega),
      show v / 4096 % 16 = v / 4096 by omega]
  · rw [if_neg (by omega), if_neg (by omega), if_neg (by omega),
      show v / 262144 % 8 = v / 262144 by omega]

theorem room_pos (count : Nat) : 0 < room count := by
  induction count with
  | zero => decide
  | succ count ih => exact Nat.mul_pos ih (by decide)

/-- Continuations depend on the digits they stand for. -/
theorem continuations_congr {count v w : Nat} (h : v % room count = w % room count) :
    continuations count v = continuations count w := by
  induction count with
  | zero => rfl
  | succ count ih =>
    rw [room] at h
    have hrest : v % room count = w % room count := by
      rw [← Nat.mod_mod_of_dvd v (Nat.dvd_mul_right (room count) 64), h,
        Nat.mod_mod_of_dvd w (Nat.dvd_mul_right (room count) 64)]
    rw [continuations, continuations, ← Nat.mod_mul_right_div_self, ← Nat.mod_mul_right_div_self,
      h, ih hrest]

/-! ## Reading -/

/-- So many digits, the first of which keeps to the bounds for its byte. -/
structure Digits (low high count d : Nat) : Prop where
  lt : d < room count
  first : count ≠ 0 → low - 0x80 ≤ d / room (count - 1) ∧ d / room (count - 1) ≤ high - 0x80

/-- What follows a leading byte in a spelling: as many continuations as it
promises, the first of them between the bounds. -/
theorem follow_eq_scalar {seen rest rest' spelling : List UInt8} {bits low high count : Nat}
    {c : Char} (h : follow seen bits low high count rest = (.scalar c spelling, rest'))
    (hbounds : count ≠ 0 → 0x80 ≤ low ∧ high ≤ 0xBF) :
    ∃ d, Digits low high count d ∧ c = Char.ofNat (bits * room count + d) ∧
      spelling = seen ++ continuations count d := by
  induction count generalizing seen bits low high rest with
  | zero =>
    simp only [follow, Prod.mk.injEq, Piece.scalar.injEq] at h
    obtain ⟨⟨rfl, rfl⟩, -⟩ := h
    exact ⟨0, ⟨by decide, fun h => absurd rfl h⟩, by simp [room], by simp [continuations]⟩
  | succ count ih =>
    obtain ⟨hlow, hhigh⟩ := hbounds (Nat.succ_ne_zero count)
    cases rest with
    | nil => simp [follow] at h
    | cons b rest =>
      rw [follow] at h
      split at h
      · next hb =>
        obtain ⟨d, ⟨hd, -⟩, hc, hspelling⟩ := ih h fun _ => ⟨Nat.le_refl _, Nat.le_refl _⟩
        have hdigit : ((b.toNat - 0x80) * room count + d) / room count = b.toNat - 0x80 := by
          rw [Nat.add_comm, Nat.add_mul_div_right _ _ (room_pos count), Nat.div_eq_of_lt hd,
            Nat.zero_add]
        refine ⟨(b.toNat - 0x80) * room count + d, ⟨?_, fun _ => ?_⟩, ?_, ?_⟩
        · have hle : (b.toNat - 0x80 + 1) * room count ≤ 64 * room count :=
            Nat.mul_le_mul_right _ (by omega)
          rw [Nat.succ_mul] at hle
          rw [room, Nat.mul_comm _ 64]
          omega
        · rw [Nat.add_sub_cancel, hdigit]
          omega
        · rw [hc, room, Nat.add_mul, Nat.add_assoc, Nat.mul_assoc, Nat.mul_comm 64]
        · have hrest : continuations count ((b.toNat - 0x80) * room count + d) =
              continuations count d := continuations_congr (Nat.mul_add_mod_self_right ..)
          rw [hspelling, List.append_assoc, continuations, hdigit, hrest,
            Nat.mod_eq_of_lt (by omega), Nat.sub_add_cancel (by omega), UInt8.ofNat_toNat]
          rfl
      · simp at h

/-- Which bytes lead, and what they promise. -/
theorem lead?_cases {b : UInt8} {l : Lead} (h : lead? b = some l) : ∃ n,
    b.toNat = n ∧ n < 0x80 ∧ l = ⟨0, n, 0, 0⟩ ∨
    b.toNat = n + 0xC0 ∧ 2 ≤ n ∧ n < 0x20 ∧ l = ⟨1, n, 0x80, 0xBF⟩ ∨
    b.toNat = n + 0xE0 ∧ n < 0x10 ∧
      l = ⟨2, n, if n = 0 then 0xA0 else 0x80, if n = 0xD then 0x9F else 0xBF⟩ ∨
    b.toNat = n + 0xF0 ∧ n < 5 ∧
      l = ⟨3, n, if n = 0 then 0x90 else 0x80, if n = 4 then 0x8F else 0xBF⟩ := by
  have hmarked : ∀ mark, mark ≤ b.toNat → b = UInt8.ofNat (b.toNat - mark + mark) :=
    fun mark hmark => by rw [Nat.sub_add_cancel hmark, UInt8.ofNat_toNat]
  by_cases h₁ : b.toNat < 0x80
  · rw [hmarked 0 (Nat.zero_le _), lead?_one (by omega)] at h
    cases h
    exact ⟨b.toNat, Or.inl ⟨rfl, h₁, rfl⟩⟩
  by_cases h₂ : b.toNat < 0xC2
  · rw [lead?, if_neg h₁, if_pos h₂] at h
    cases h
  by_cases h₃ : b.toNat < 0xE0
  · rw [hmarked 0xC0 (by omega), lead?_two (by omega) (by omega)] at h
    cases h
    exact ⟨b.toNat - 0xC0, Or.inr (Or.inl ⟨by omega, by omega, by omega, rfl⟩)⟩
  by_cases h₄ : b.toNat < 0xF0
  · rw [hmarked 0xE0 (by omega), lead?_three (by omega)] at h
    cases h
    exact ⟨b.toNat - 0xE0, Or.inr (Or.inr (Or.inl ⟨by omega, by omega, rfl⟩))⟩
  by_cases h₅ : b.toNat < 0xF5
  · rw [hmarked 0xF0 (by omega), lead?_four (by omega)] at h
    cases h
    exact ⟨b.toNat - 0xF0, Or.inr (Or.inr (Or.inr ⟨by omega, by omega, rfl⟩))⟩
  · simp only [lead?] at h
    rw [if_neg h₁, if_neg h₂, if_neg h₃, if_neg (by omega), if_neg (by omega), if_neg h₄,
      if_neg (by omega), if_neg (by omega), if_neg (by omega)] at h
    cases h

/-- **What a leading byte promises**: its bits in front of digits that keep to
the bounds are a scalar value that needs as many continuations as are to
follow. -/
theorem needs_of_lead? {b : UInt8} {l : Lead} (h : lead? b = some l) :
    b.toNat = l.bits + mark l.following ∧
      (l.following ≠ 0 → 0x80 ≤ l.low ∧ l.high ≤ 0xBF) ∧
      ∀ d, Digits l.low l.high l.following d →
        Needs (l.bits * room l.following + d) l.following ∧
          (l.bits * room l.following + d).isValidChar := by
  obtain ⟨n, h | h | h | h⟩ := lead?_cases h
  · obtain ⟨hb, hn, rfl⟩ := h
    refine ⟨hb, fun h => absurd rfl h, fun d ⟨hd, _⟩ => ?_⟩
    simp only [room, Nat.mul_one] at hd ⊢
    exact ⟨⟨by decide, Nat.zero_le _, by simp only [leastOf]; omega⟩, Or.inl (by omega)⟩
  · obtain ⟨hb, hn, hn', rfl⟩ := h
    refine ⟨hb, fun _ => ⟨Nat.le_refl _, Nat.le_refl _⟩, fun d ⟨hd, _⟩ => ?_⟩
    simp only [room, Nat.one_mul] at hd ⊢
    refine ⟨⟨by decide, ?_, ?_⟩, Or.inl (by omega)⟩
    all_goals
      simp only [leastOf]
      omega
  · obtain ⟨hb, hn, rfl⟩ := h
    refine ⟨hb, fun _ => ?_, fun d ⟨hd, hfirst⟩ => ?_⟩
    · simp only
      split <;> split <;> omega
    · have hfirst := hfirst (by simp)
      simp only [room, Nat.reduceSub, Nat.reduceMul] at hd hfirst ⊢
      refine ⟨⟨by decide, ?_, ?_⟩, ?_⟩
      · simp only [leastOf]
        split at hfirst <;> omega
      · simp only [leastOf]
        omega
      · unfold Nat.isValidChar
        split at hfirst <;> split at hfirst <;> omega
  · obtain ⟨hb, hn, rfl⟩ := h
    refine ⟨hb, fun _ => ?_, fun d ⟨hd, hfirst⟩ => ?_⟩
    · simp only
      split <;> split <;> omega
    · have hfirst := hfirst (by simp)
      simp only [room, Nat.reduceSub, Nat.reduceMul] at hd hfirst ⊢
      refine ⟨⟨by decide, ?_, ?_⟩, ?_⟩
      · simp only [leastOf]
        split at hfirst <;> omega
      · simp only [leastOf]
        split at hfirst <;> split at hfirst <;> omega
      · unfold Nat.isValidChar
        split at hfirst <;> split at hfirst <;> omega

/-- **A piece that is a scalar value is its spelling.** -/
theorem spelling_of_next {b : UInt8} {rest rest' spelling : List UInt8} {c : Char}
    (h : next b rest = (.scalar c spelling, rest')) : spelling = String.utf8EncodeChar c := by
  unfold next at h
  split at h
  · next l hl =>
    obtain ⟨hb, hbounds, hneeds⟩ := needs_of_lead? hl
    obtain ⟨d, hd, rfl, rfl⟩ := follow_eq_scalar h hbounds
    obtain ⟨hneeds, hvalid⟩ := hneeds d hd
    have hvalue : (Char.ofNat (l.bits * room l.following + d)).toNat =
        l.bits * room l.following + d := by
      rw [Char.ofNat, dif_pos hvalid]
      rfl
    have hlead : leading l.following (l.bits * room l.following + d) = b.toNat := by
      rw [leading, hb, Nat.add_comm (_ * _), Nat.add_mul_div_right _ _ (room_pos _),
        Nat.div_eq_of_lt hd.lt, Nat.zero_add]
    rw [utf8EncodeChar_eq (hvalue.symm ▸ hneeds), hvalue, hlead, UInt8.ofNat_toNat,
      continuations_congr (Nat.mul_add_mod_self_right ..)]
    rfl
  · simp at h

/-- **Bytes that are read as a text are its spelling.** -/
theorem encode_of_decode? {bytes : List UInt8} {text : List Char} (h : decode? bytes = some text) :
    encode text = bytes := by
  unfold decode? at h
  induction bytes using pieces.induct generalizing text with
  | case1 =>
    rw [pieces] at h
    cases h
    rfl
  | case2 b rest ih =>
    rw [pieces, List.mapM_cons] at h
    have hbytes := bytes_next b rest
    rcases hnext : next b rest with ⟨⟨c, spelling⟩ | part, rest'⟩
    · rw [hnext] at h hbytes ih
      simp only [Piece.scalar?, Option.bind_eq_bind, Option.bind_some, Option.bind_eq_some_iff] at h
      obtain ⟨text', htext', h⟩ := h
      cases h
      rw [encode, List.flatMap_cons, ← spelling_of_next hnext]
      exact (congrArg _ (ih htext')).trans hbytes
    · rw [hnext] at h
      cases h

theorem decode?_eq_some {bytes : List UInt8} {text : List Char} :
    decode? bytes = some text ↔ bytes = encode text :=
  ⟨fun h => (encode_of_decode? h).symm, fun h => h ▸ decode?_encode text⟩

end Utf8

end TreeCompare
