import TreeCompare.Collator
import TreeCompare.Proofs.Text.Spelling
/-!
# Names in the order of their scalar values

A leading byte grows with the number of continuations that it promises, and
continuations are digits: so spellings are ordered as the values they spell
(`compare_utf8EncodeChar`), and texts by their bytes as by their scalar values,
also where one begins the other (`compare_encode`). That is the order of names
by their bytes and by their keys (`Collator.scalarValues_order`).
-/

namespace TreeCompare

namespace Utf8

/-- The order of texts by their scalar values: the first that differ decide, and
a text is behind what it begins with. -/
def scalarOrder (text text' : List Char) : Ordering :=
  compare (text.map Char.toNat) (text'.map Char.toNat)

/-! ## Numbers in digits -/

/-- Two numbers are compared by their leading digits, and by the last one if
those are the same. -/
theorem compare_digits {base r r' : Nat} (hr : r < base) (hr' : r' < base) (q q' : Nat) :
    compare (q * base + r) (q' * base + r') = (compare q q').then (compare r r') := by
  have hlt : ∀ {m n a b : Nat}, a < base → m < n → m * base + a < n * base + b := by
    intro m n a b ha hmn
    have hle : (m + 1) * base ≤ n * base := Nat.mul_le_mul_right base hmn
    rw [Nat.succ_mul] at hle
    omega
  cases hq : compare q q' with
  | lt => exact Nat.compare_eq_lt.2 (hlt hr (Nat.compare_eq_lt.1 hq))
  | gt => exact Nat.compare_eq_gt.2 (hlt hr' (Nat.compare_eq_gt.1 hq))
  | eq =>
    obtain rfl := Nat.compare_eq_eq.1 hq
    rw [Ordering.eq_then, Nat.compare_eq_ite_lt, Nat.compare_eq_ite_lt]
    simp only [Nat.add_lt_add_iff_left]

theorem compare_add (m n k : Nat) : compare (m + k) (n + k) = compare m n := by
  simp only [Nat.compare_eq_ite_lt, Nat.add_lt_add_iff_right]

/-- Bytes are compared as the numbers they are. -/
theorem compare_ofNat {m n : Nat} (hm : m < 256) (hn : n < 256) :
    compare (UInt8.ofNat m) (UInt8.ofNat n) = compare m n := by
  change compareOfLessAndEq _ _ = compareOfLessAndEq _ _
  simp only [compareOfLessAndEq, UInt8.lt_iff_toNat_lt, ← UInt8.toNat_inj,
    UInt8.toNat_ofNat_of_lt' hm, UInt8.toNat_ofNat_of_lt' hn]

/-! ## Spellings -/

/-- **Continuations are compared as the digits they stand for**, and then what
follows them. -/
theorem compare_continuations (count v w : Nat) (x y : List UInt8) :
    compare (continuations count v ++ x) (continuations count w ++ y) =
      (compare (v % room count) (w % room count)).then (compare x y) := by
  induction count with
  | zero =>
    simp only [continuations, List.nil_append, room, Nat.mod_one]
    rfl
  | succ count ih =>
    have hsplit : ∀ n, n % room (count + 1) = n / room count % 64 * room count + n % room count :=
      fun n => by rw [room, Nat.mod_mul, Nat.mul_comm, Nat.add_comm]
    simp only [continuations, List.cons_append, List.compare_cons_cons, ih]
    rw [compare_ofNat (by omega) (by omega), compare_add, hsplit v, hsplit w,
      compare_digits (Nat.mod_lt _ (room_pos _)) (Nat.mod_lt _ (room_pos _)), Ordering.then_assoc]

theorem leading_lt {count v : Nat} (h : Needs v count) : leading count v < 256 := by
  obtain ⟨hcount, -, hlt⟩ := h
  obtain rfl | rfl | rfl | rfl : count = 0 ∨ count = 1 ∨ count = 2 ∨ count = 3 := by omega
  all_goals
    simp only [leading, room, mark, leastOf] at hlt ⊢
    omega

/-- What needs more continuations is a larger value with a larger leading
byte. -/
theorem lt_of_needs {count count' v w : Nat} (hv : Needs v count) (hw : Needs w count')
    (h : count < count') : v < w ∧ leading count v < leading count' w := by
  obtain ⟨-, -, hlt⟩ := hv
  obtain ⟨hcount', hleast, -⟩ := hw
  obtain ⟨rfl | rfl | rfl, rfl | rfl | rfl⟩ :
      (count = 0 ∨ count = 1 ∨ count = 2) ∧ (count' = 1 ∨ count' = 2 ∨ count' = 3) := by omega
  all_goals
    simp only [leading, room, mark, leastOf] at h hlt hleast ⊢
    omega

/-- **Spellings are ordered as the values they spell**, and then by what follows
them. -/
theorem compare_utf8EncodeChar (c d : Char) (x y : List UInt8) :
    compare (String.utf8EncodeChar c ++ x) (String.utf8EncodeChar d ++ y) =
      (compare c.toNat d.toNat).then (compare x y) := by
  obtain ⟨count, hc⟩ := exists_needs c
  obtain ⟨count', hd⟩ := exists_needs d
  rw [utf8EncodeChar_eq hc, utf8EncodeChar_eq hd, List.cons_append, List.cons_append,
    List.compare_cons_cons, compare_ofNat (leading_lt hc) (leading_lt hd)]
  rcases Nat.lt_trichotomy count count' with h | rfl | h
  · obtain ⟨hvalue, hleading⟩ := lt_of_needs hc hd h
    rw [Nat.compare_eq_lt.2 hvalue, Nat.compare_eq_lt.2 hleading]
    rfl
  · -- as many continuations on both sides: the digits decide, the leading ones first
    have hdigits := compare_digits (Nat.mod_lt c.toNat (room_pos count))
      (Nat.mod_lt d.toNat (room_pos count)) (c.toNat / room count) (d.toNat / room count)
    rw [Nat.div_add_mod', Nat.div_add_mod'] at hdigits
    rw [compare_continuations, leading, leading, compare_add, hdigits, Ordering.then_assoc]
  · obtain ⟨hvalue, hleading⟩ := lt_of_needs hd hc h
    rw [Nat.compare_eq_gt.2 hvalue, Nat.compare_eq_gt.2 hleading]
    rfl

/-! ## Texts -/

theorem exists_cons_eq_encode (c : Char) (text : List Char) :
    ∃ b bytes, encode (c :: text) = b :: bytes := by
  obtain ⟨count, hc⟩ := exists_needs c
  rw [encode, List.flatMap_cons, utf8EncodeChar_eq hc]
  exact ⟨_, _, rfl⟩

/-- **Texts are ordered by their bytes as by their scalar values.** -/
theorem compare_encode (text text' : List Char) :
    compare (encode text) (encode text') = scalarOrder text text' := by
  induction text generalizing text' with
  | nil =>
    cases text' with
    | nil => rfl
    | cons d text' =>
      obtain ⟨b, bytes, hd⟩ := exists_cons_eq_encode d text'
      rw [hd]
      rfl
  | cons c text ih =>
    cases text' with
    | nil =>
      obtain ⟨b, bytes, hc⟩ := exists_cons_eq_encode c text
      rw [hc]
      rfl
    | cons d text' =>
      rw [encode, encode, List.flatMap_cons, List.flatMap_cons, compare_utf8EncodeChar, scalarOrder,
        List.map_cons, List.map_cons, List.compare_cons_cons]
      exact congrArg _ (ih text')

end Utf8

namespace Collator

open Utf8 (decode? encode scalarOrder)

variable {σ : Type}

/-- The key of a name that is UTF-8 spells its text, in lower case if case is
folded. -/
theorem scalarValues_key {name : Name} {text : List Char} (h : decode? name.bytes = some text)
    (foldCase : Bool) (memory : σ) :
    scalarValues.key name foldCase memory =
      (.ok ⟨encode (if foldCase then LetterCase.lowercase text else text)⟩, memory) := by
  simp only [scalarValues, ofKey, scalarKey, folded, h]
  cases foldCase with
  | false => rw [if_neg Bool.false_ne_true, if_neg Bool.false_ne_true, Utf8.decode?_eq_some.1 h]
  | true => rfl

/-- **Unicode orders names by scalar values.** Names that are UTF-8 are ordered
by their bytes, and by their keys, as their texts are by the scalar values they
consist of; and by the keys that fold case, as the lower-case forms of their
texts are. -/
theorem scalarValues_order {a b : Name} {text text' : List Char}
    (ha : decode? a.bytes = some text) (hb : decode? b.bytes = some text') (memory memory' : σ) :
    a.bytewise b = scalarOrder text text' ∧
    (∃ k k', (scalarValues.key a false memory).1 = .ok k ∧
      (scalarValues.key b false memory').1 = .ok k' ∧ k.order k' = scalarOrder text text') ∧
    ∃ k k', (scalarValues.key a true memory).1 = .ok k ∧
      (scalarValues.key b true memory').1 = .ok k' ∧
      k.order k' = scalarOrder (LetterCase.lowercase text) (LetterCase.lowercase text') := by
  simp only [scalarValues_key ha, scalarValues_key hb, Bool.false_eq_true, if_true, if_false]
  refine ⟨?_, ⟨_, _, rfl, rfl, Utf8.compare_encode ..⟩, _, _, rfl, rfl, Utf8.compare_encode ..⟩
  rw [Name.bytewise, Utf8.decode?_eq_some.1 ha, Utf8.decode?_eq_some.1 hb, Utf8.compare_encode]

/-- A name that comes second by its bytes and first without regard to case. Its
last scalar value is spelled in three bytes, and that of the other name in
four. -/
theorem scalarValues_order_of_unlike_lengths :
    (Name.ofString "é\uFFFD").bytewise (Name.ofString "É😀") = .gt ∧
      ∃ k k', ((scalarValues (σ := Unit)).key (Name.ofString "é\uFFFD") true ()).1 = .ok k ∧
        ((scalarValues (σ := Unit)).key (Name.ofString "É😀") true ()).1 = .ok k' ∧
        k.order k' = .lt := by
  obtain ⟨hbytes, -, k, k', hk, hk', hfolded⟩ :=
    scalarValues_order (σ := Unit) (a := Name.ofString "é\uFFFD") (b := Name.ofString "É😀")
      (Utf8.decode?_encode _) (Utf8.decode?_encode _) () ()
  exact ⟨hbytes.trans (by decide), k, k', hk, hk', hfolded.trans (by decide +kernel)⟩

end Collator

end TreeCompare
