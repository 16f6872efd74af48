import Mathlib.Data.List.Perm.Basic
import TreeCompare.NameOrdering
/-!
# Keyings

A collator that never fails, and whose answer depends on the name alone,
is a function from names to keys: a `Keying`. Its two orders are the one
that pairs names (`matching`, by keys alone) and the one that sorts them
(`sorting`, ties broken by bytes), and the order of bytes is the keying
whose keys are the names (`Keying.bytes`). `sorting` is a total order, and
`matching` never disagrees with it: the two facts every merge rests on.
-/

namespace TreeCompare

/-- A key for every name. -/
abbrev Keying := Name → SortKey

namespace Keying

/-- The keying whose keys are the names themselves. -/
def bytes : Keying := fun name => ⟨name.bytes⟩

/-- The keying that folds the case of the letters of ASCII. -/
def foldAscii : Keying := fun name =>
  ⟨name.bytes.map fun byte => if 65 ≤ byte ∧ byte ≤ 90 then byte + 32 else byte⟩

/-- The order that pairs names across the two sides. -/
def matching (k : Keying) (a b : Name) : Ordering := (k a).order (k b)

/-- The order that sorts one side. -/
def sorting (k : Keying) (a b : Name) : Ordering := (k.matching a b).then (a.bytewise b)

/-- Strictly ascending, so without repetitions. -/
def Sorted (k : Keying) (names : List Name) : Prop :=
  names.Pairwise fun a b => k.sorting a b = .lt

variable {k : Keying} {a b c : Name} {names : List Name}

instance : Std.TransCmp k.matching :=
  inferInstanceAs (Std.TransCmp (compareOn fun name => (k name).bytes))

instance : Std.TransCmp Name.bytewise :=
  inferInstanceAs (Std.TransCmp (compareOn Name.bytes))

instance : Std.TransCmp k.sorting :=
  inferInstanceAs (Std.TransCmp (compareLex k.matching Name.bytewise))

/-! ## The two orders -/

/-- Matching is having equal keys. -/
theorem matching_eq : k.matching a b = .eq ↔ k a = k b := by
  simp only [matching, SortKey.order, Std.compare_eq_iff_eq]
  cases h : k a; cases h' : k b
  simp

@[simp] theorem matching_self : k.matching a a = .eq := matching_eq.2 rfl

/-- Only a name itself sorts like it. -/
theorem sorting_eq : k.sorting a b = .eq ↔ a = b := by
  rw [sorting, Ordering.then_eq_eq, Name.bytewise_eq_eq]
  exact ⟨And.right, fun h => ⟨h ▸ matching_self, h⟩⟩

theorem sorting_lt :
    k.sorting a b = .lt ↔
      k.matching a b = .lt ∨ k.matching a b = .eq ∧ a.bytewise b = .lt :=
  Ordering.then_eq_lt

/-- Among names that match, the bytes decide. -/
theorem sorting_of_matching (h : k.matching a b = .eq) : k.sorting a b = a.bytewise b := by
  rw [sorting, h]; rfl

/-- What sorts first does not match later. -/
theorem matching_ne_gt_of_sorting (h : k.sorting a b = .lt) : k.matching a b ≠ .gt := by
  rcases sorting_lt.1 h with h | ⟨h, -⟩ <;> simp [h]

theorem sorting_irrefl : k.sorting a a ≠ .lt := by
  rw [sorting_eq.2 rfl]; simp

theorem ne_of_sorting (h : k.sorting a b = .lt) : a ≠ b := by
  rintro rfl; exact sorting_irrefl h

theorem sorting_asymm (h : k.sorting a b = .lt) : k.sorting b a ≠ .lt := fun h' =>
  sorting_irrefl (Std.TransCmp.lt_trans h h')

/-- Of two names one sorts first. -/
theorem sorting_total (h : a ≠ b) : k.sorting a b = .lt ∨ k.sorting b a = .lt := by
  cases ho : k.sorting a b with
  | lt => exact Or.inl rfl
  | eq => exact absurd (sorting_eq.1 ho) h
  | gt => exact Or.inr (Std.OrientedCmp.gt_iff_lt.1 ho)

/-- The order of bytes matches names only with themselves. -/
@[simp] theorem matching_bytes : Keying.bytes.matching a b = a.bytewise b := rfl

@[simp] theorem sorting_bytes : Keying.bytes.sorting a b = a.bytewise b := by
  rw [sorting, matching_bytes]
  cases a.bytewise b <;> rfl

/-! ## Sorted lists -/

theorem Sorted.nodup (h : k.Sorted names) : names.Nodup := h.imp ne_of_sorting

theorem Sorted.sublist {shorter : List Name} (h : k.Sorted names) (hs : shorter.Sublist names) :
    k.Sorted shorter := List.Pairwise.sublist hs h

theorem Sorted.tail (h : k.Sorted (a :: names)) : k.Sorted names :=
  h.sublist (List.sublist_cons_self ..)

/-- The head of a sorted list sorts before the rest. -/
theorem Sorted.head_lt (h : k.Sorted (a :: names)) (hb : b ∈ names) : k.sorting a b = .lt :=
  List.rel_of_pairwise_cons h hb

/-- Weakly ascending names without repetitions are sorted. -/
theorem sorted_of_isLE (h : names.Pairwise fun a b => (k.sorting a b).isLE) (hd : names.Nodup) :
    k.Sorted names := by
  refine (h.and hd).imp fun {a b} ⟨hle, hne⟩ => ?_
  rcases sorting_total (k := k) hne with hlt | hgt
  · exact hlt
  · rw [Std.OrientedCmp.gt_iff_lt.2 hgt] at hle
    cases hle

/-- **A sorted list is determined by its elements.** -/
theorem Sorted.eq_of_perm {names' : List Name} (h : k.Sorted names) (h' : k.Sorted names')
    (hp : names.Perm names') : names = names' :=
  List.Perm.eq_of_pairwise (fun _ _ _ _ hab hba => absurd hba (sorting_asymm hab)) h h' hp

/-- Weakly ascending, with repetitions where there are any. -/
def Ascending (k : Keying) (names : List Name) : Prop :=
  names.Pairwise fun a b => (k.sorting a b).isLE

/-- Ascending names are determined by which they are. -/
theorem Ascending.eq_of_perm {names' : List Name} (h : k.Ascending names)
    (h' : k.Ascending names') (hp : names.Perm names') : names = names' := by
  refine List.Perm.eq_of_pairwise (fun a b _ _ hab hba => ?_) h h' hp
  exact sorting_eq.1 (Std.OrientedCmp.isLE_antisymm hab hba)

end Keying

/-! ## Sorting by a keying -/

namespace StableSort

/-- The sort by an order of names puts them in that order. -/
theorem pairwise_sort {α : Type} (cmp : Name → Name → Ordering) [Std.TransCmp cmp]
    (nameOf : α → Name) (items : List α) :
    (sort (fun a b => (cmp (nameOf a) (nameOf b)).isLE) items).Pairwise
      fun a b => (cmp (nameOf a) (nameOf b)).isLE := by
  rw [sort_eq_mergeSort]
  refine List.pairwise_mergeSort (fun a b c hab hbc => ?_) (fun a b => ?_) items
  · exact Std.TransCmp.isLE_trans hab hbc
  · have hswap : cmp (nameOf b) (nameOf a) = (cmp (nameOf a) (nameOf b)).swap :=
      Std.OrientedCmp.eq_swap
    simp only [hswap]
    cases cmp (nameOf a) (nameOf b) <;> rfl

end StableSort

/-- Names without repetitions come out sorted by their bytes. -/
theorem Keying.sorted_sortBytewise {names : List Name} (hd : names.Nodup) :
    Keying.bytes.Sorted (NameOrdering.sortBytewise id names) := by
  refine sorted_of_isLE ?_ ((StableSort.sort_perm _ _).nodup_iff.2 hd)
  simp only [sorting_bytes]
  exact StableSort.pairwise_sort Name.bytewise id names

end TreeCompare
