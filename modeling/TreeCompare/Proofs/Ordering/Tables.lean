import TreeCompare.NameTable
import TreeCompare.Proofs.Ordering.Answers
/-!
# What sorting and moving do to the names of a table

A table keeps spans, and everything the spans go through shows in the list
of names: `names_sortTail` and `names_bringForward` read the two
operations on tables as operations on that list, so that nothing further
on has to look at a span.
-/

namespace TreeCompare

namespace NameTable

variable {σ : Type} {order : NameOrdering σ} {key : Keying} {t : NameTable}

/-- **Sorting a table from a position on** sorts the names from there on
and leaves those before. -/
theorem names_sortTail (t : NameTable) (start : Nat) (order : NameOrdering σ) (s : RunState σ) :
    (t.sortTail start order s).1.names =
      t.names.take start ++ (order.sort id (t.names.drop start) s).1 := by
  have h := (order.map_sort (·.name t.bytes) (t.spans.drop start) s).1
  simp only [names, sortTail, List.map_append, List.map_take, h, List.map_drop]

@[simp] theorem run_sortTail (t : NameTable) (start : Nat) (order : NameOrdering σ)
    (s : RunState σ) :
    (t.sortTail start order s).2 = (order.sort id (t.names.drop start) s).2 := by
  have h := (order.map_sort (·.name t.bytes) (t.spans.drop start) s).2
  simp only [names, sortTail, h, List.map_drop]

@[simp] theorem sortedBy_sortTail (t : NameTable) (start : Nat) (order : NameOrdering σ)
    (s : RunState σ) :
    (t.sortTail start order s).1.sortedBy =
      some (order.sort id (t.names.drop start) s).2.basis := by
  rw [← run_sortTail]
  rfl

/-- Moving a name takes it out and puts it back further in front. -/
theorem names_bringForward (t : NameTable) (target found : Nat) :
    (t.bringForward target found).names =
      t.names.take target ++ (t.names.drop found).take 1 ++
        (t.names.drop target).take (found - target) ++ t.names.drop (found + 1) := by
  simp only [names, bringForward, List.map_append, List.map_take, List.map_drop]

/-- From the position moved to on, a name found behind the head comes in
front of it, and the rest stays in its order. -/
theorem drop_names_bringForward {i place : Nat} {a x : Name} {as : List Name}
    (ht : t.names.drop i = a :: as) (hx : as[place]? = some x) :
    (t.bringForward i (i + 1 + place)).names.drop i = x :: a :: as.eraseIdx place := by
  have hlt : place < as.length := (List.getElem?_eq_some_iff.1 hx).1
  have hi : (t.names.take i).length = i := by
    have := congrArg List.length ht
    simp only [List.length_drop, List.length_cons] at this
    rw [List.length_take]
    omega
  have hdrop : ∀ n, t.names.drop (i + n) = (a :: as).drop n := by
    intro n
    rw [← ht, List.drop_drop]
  have hfound : (t.names.drop (i + 1 + place)).take 1 = [x] := by
    rw [Nat.add_assoc, hdrop, Nat.add_comm 1 place, List.drop_succ_cons,
      List.drop_eq_getElem_cons hlt, List.take_succ_cons, List.take_zero]
    simp [(List.getElem?_eq_some_iff.1 hx).2]
  have hrest : t.names.drop (i + 1 + place + 1) = as.drop (place + 1) := by
    rw [show i + 1 + place + 1 = i + (place + 1 + 1) by omega, hdrop, List.drop_succ_cons]
  rw [names_bringForward, List.append_assoc, List.append_assoc, List.drop_left' hi, hfound, ht,
    hrest, show i + 1 + place - i = place + 1 by omega, List.take_succ_cons,
    List.eraseIdx_eq_take_drop_succ]
  rfl

/-! ## Tables that are sorted by what they say -/

/-- A table that says on what basis it was sorted is sorted on it. -/
def TrueTo (order : NameOrdering σ) (key : Keying) (t : NameTable) : Prop :=
  ∀ basis, t.sortedBy = some basis → (order.keying key basis).Sorted t.names

/-- A table that was never sorted says nothing. -/
theorem trueTo_of_unsorted (h : t.sortedBy = none) : t.TrueTo order key := by
  intro basis hb
  rw [h] at hb
  cases hb

/-- A table just sorted is sorted by what it says. -/
theorem trueTo_sortTail (hk : order.collator.KeyedBy key) (hd : t.names.Nodup)
    (s : RunState σ) : (t.sortTail 0 order s).1.TrueTo order key := by
  intro basis hb
  rw [sortedBy_sortTail] at hb
  cases hb
  rw [names_sortTail, List.take_zero, List.nil_append, List.drop_zero]
  exact NameOrdering.sorted_sort hk hd s

theorem perm_sortTail (t : NameTable) (order : NameOrdering σ) (s : RunState σ) :
    (t.sortTail 0 order s).1.names.Perm t.names := by
  rw [names_sortTail, List.take_zero, List.nil_append, List.drop_zero]
  exact order.sort_perm id t.names s

end NameTable

end TreeCompare
