/-!
# Stable sorting

`sort` is merge sort by halves: it keeps the order of items that are equal
to each other. Its recursion is on a bound for the length, so a list is
sorted by evaluation alone. All that is known of the core library's
`mergeSort` is known of it (`sort_eq_mergeSort`).
-/

namespace TreeCompare

namespace StableSort

variable {α : Type}

/-- A list with `x` put in front of the first item that does not come
before it; `rest` goes on from there. -/
def mergeHead (le : α → α → Bool) (x : α) (rest : List α → List α) : List α → List α
  | [] => x :: rest []
  | y :: ys => if le x y then x :: rest (y :: ys) else y :: mergeHead le x rest ys

/-- Two sorted lists as one. Of equal items those of the first list come
first. -/
def merge (le : α → α → Bool) : List α → List α → List α
  | [], ys => ys
  | x :: xs, ys => mergeHead le x (merge le xs) ys

/-- A list of at most `bound` items, sorted. -/
def sortWithin (le : α → α → Bool) : (bound : Nat) → List α → List α
  | bound + 1, x :: y :: items =>
    let half := (items.length + 3) / 2
    merge le (sortWithin le bound ((x :: y :: items).take half))
      (sortWithin le bound ((x :: y :: items).drop half))
  | _, items => items

/-- A list sorted by `le`. -/
def sort (le : α → α → Bool) (items : List α) : List α := sortWithin le items.length items

theorem merge_eq (le : α → α → Bool) (xs ys : List α) : merge le xs ys = xs.merge ys le := by
  induction xs generalizing ys with
  | nil => simp [merge]
  | cons x xs ihx =>
    induction ys with
    | nil => simp [merge, mergeHead, ihx]
    | cons y ys ihy =>
      simp only [merge] at ihy
      simp only [merge, mergeHead, List.cons_merge_cons, ihx, ihy]

theorem sortWithin_eq (le : α → α → Bool) {bound : Nat} {items : List α}
    (h : items.length ≤ bound) : sortWithin le bound items = items.mergeSort le := by
  induction bound generalizing items with
  | zero =>
    obtain rfl := List.length_eq_zero_iff.1 (Nat.le_zero.1 h)
    simp [sortWithin]
  | succ bound ih =>
    match items, h with
    | [], _ => simp [sortWithin]
    | [x], _ => simp [sortWithin]
    | x :: y :: items, h =>
      rw [sortWithin, List.mergeSort, merge_eq]
      simp only [List.MergeSort.Internal.splitInTwo_fst, List.MergeSort.Internal.splitInTwo_snd]
      simp only [List.length_cons] at h ⊢
      rw [ih (by simp only [List.length_take, List.length_cons]; omega),
        ih (by simp only [List.length_drop, List.length_cons]; omega)]

/-- Sorting gives what the core library's merge sort gives. -/
theorem sort_eq_mergeSort (le : α → α → Bool) (items : List α) :
    sort le items = items.mergeSort le := sortWithin_eq le (Nat.le_refl _)

/-- Sorting loses and adds nothing. -/
theorem sort_perm (le : α → α → Bool) (items : List α) : (sort le items).Perm items :=
  sort_eq_mergeSort le items ▸ List.mergeSort_perm items le

end StableSort

end TreeCompare
