import TreeCompare.Proofs.Operations.Reading
import TreeCompare.Proofs.Ordering.ByName
/-!
# The start filter

While a directory is being enumerated, its names are compared with the start
name, by their keys until one comparison fails and by bytes from there on.
For a collator whose answer depends on the name alone
(`Collator.AnswersBy`), what is kept is what the names before the first such
failure and those from it on are by these two orders (`kept_eq`), and the
sort that follows does not fail where the filter did not
(`namesIn_start`).
-/

namespace TreeCompare

variable {σ : Type} {answer : Name → Except KeyError SortKey}

namespace Comparison

variable {c : Comparison σ} {fs : FileSystem} {operand operand' : Operand} {s s' : RunState σ}
  {table : NameTable} {start : Name} {startOnly : Bool}

/-- Whether a name that is so ordered against the start name passes the
filter. -/
def passes (startOnly : Bool) : Ordering → Bool
  | .lt => false
  | .eq => true
  | .gt => !startOnly

/-- All that is asked is not to be before the start name. -/
theorem passes_false_iff {o : Ordering} : passes false o = true ↔ o ≠ .lt := by
  cases o <;> simp [passes]

/-- A name that is looked for alone passes if it matches. -/
theorem passes_true (o : Ordering) : passes true o = (o == .eq) := by
  cases o <;> rfl

theorem isFromStart_some (name : Name) (s : RunState σ) :
    c.isFromStart (some start) startOnly name s =
      (passes startOnly (c.order.matchingOrder name start s).1,
        (c.order.matchingOrder name start s).2) := by
  simp only [isFromStart]
  split <;> next h => rw [h]; rfl

/-- Names that are not collated are kept by their bytes. -/
theorem kept_of_not_usesKeys (hu : ¬ c.order.usesKeys s = true) (names : List Name) :
    c.kept (some start) startOnly names s =
      (names.filter fun x => passes startOnly (x.bytewise start) && !c.excluded x, s) := by
  induction names with
  | nil => rfl
  | cons name names ih =>
    simp only [kept, isFromStart_some, NameOrdering.matchingOrder_of_not_usesKeys hu, ih,
      List.filter_cons]

/-- **What the filter keeps.** Up to the first name that cannot be compared
with the start name, the names that pass by their keys; from it on, those
that pass by their bytes. -/
theorem kept_eq (ha : c.order.collator.AnswersBy answer) (hu : c.order.usesKeys s = true)
    (start : Name) (startOnly : Bool) (names : List Name) :
    (c.kept (some start) startOnly names s).1 =
        ((names.takeWhile (comparable answer · start)).filter fun x =>
          passes startOnly (judged answer x start) && !c.excluded x) ++
        ((names.dropWhile (comparable answer · start)).filter fun x =>
          passes startOnly (x.bytewise start) && !c.excluded x) ∧
      c.order.usesKeys (c.kept (some start) startOnly names s).2 =
        names.all (comparable answer · start) := by
  induction names generalizing s with
  | nil => exact ⟨rfl, hu⟩
  | cons name names ih =>
    obtain ⟨hm, hmu⟩ := NameOrdering.matchingOrder_of_answersBy ha hu name start
    simp only [kept, isFromStart_some, hm, List.takeWhile_cons, List.dropWhile_cons, List.all_cons]
    cases hc : comparable answer name start with
    | true =>
      obtain ⟨hk, hku⟩ := ih (hmu.trans hc)
      simp only [hk, hku, if_true, List.filter_cons, Bool.true_and, and_true]
      split <;> rfl
    | false =>
      -- the comparison that fails is answered by bytes already
      have hnot : ¬ c.order.usesKeys (c.order.matchingOrder name start s).2 = true := by
        rw [hmu, hc]
        exact Bool.false_ne_true
      have hnone : keyOrder answer name start = none := Option.isNone_iff_eq_none.1 (by
        rw [← Option.not_isSome]
        exact congrArg (! ·) hc)
      have hj : judged answer name start = name.bytewise start := by rw [judged, hnone]; rfl
      simp only [kept_of_not_usesKeys hnot, hj, Bool.false_eq_true, if_false, List.filter_nil,
        List.nil_append, List.filter_cons, Bool.false_and, Bool.eq_false_iff.2 hnot, and_true]

/-- A name is judged by its key if the run collates and no comparison up to
it fails, and by its bytes otherwise. -/
theorem mem_kept_iff (ha : c.order.collator.AnswersBy answer) {names : List Name}
    (hd : names.Nodup) {x : Name} (hx : x ∈ names) (hkeep : c.excluded x = false) :
    x ∈ (c.kept (some start) startOnly names s).1 ↔
      passes startOnly
        (if c.order.usesKeys s = true ∧ x ∈ names.takeWhile (comparable answer · start)
          then judged answer x start else x.bytewise start) = true := by
  by_cases hu : c.order.usesKeys s = true
  · have hsplit := List.takeWhile_append_dropWhile (p := (comparable answer · start)) (l := names)
    rw [(kept_eq ha hu start startOnly names).1]
    rw [← hsplit] at hd hx
    have hdisjoint : ∀ {y}, y ∈ names.takeWhile (comparable answer · start) →
        y ∉ names.dropWhile (comparable answer · start) :=
      fun hy hy' => (List.nodup_append.1 hd).2.2 _ hy _ hy' rfl
    simp only [List.mem_append, List.mem_filter, hkeep, Bool.not_false, Bool.and_true, hu, true_and]
    rcases List.mem_append.1 hx with hx | hx
    · rw [if_pos hx]
      exact ⟨fun h => h.elim And.right fun h => absurd h.1 (hdisjoint hx), fun h => Or.inl ⟨hx, h⟩⟩
    · have hnot := fun h => hdisjoint h hx
      rw [if_neg hnot]
      exact ⟨fun h => h.elim (fun h => absurd h.1 hnot) And.right, fun h => Or.inr ⟨hx, h⟩⟩
  · rw [kept_of_not_usesKeys hu, if_neg fun h => hu h.1]
    simp [hx, hkeep]

/-- The names that the directory of an operand yields, one after the
other. -/
def entryNames (fs : FileSystem) (operand : Operand) : List Name :=
  if operand.isNonexistent then []
  else match fs.enumerate operand.path with
    | .ok entries => entries.names
    | .error _ => []

theorem nodup_entryNames (hfs : fs.ListsOnce) (operand : Operand) :
    (entryNames fs operand).Nodup := by
  unfold entryNames
  split
  · exact List.nodup_nil
  · split
    · next henum => exact hfs _ _ henum
    · exact List.nodup_nil

theorem keptNames_eq (c : Comparison σ) (fs : FileSystem) (operand : Operand) :
    c.keptNames fs operand = (entryNames fs operand).filter (!c.excluded ·) := by
  unfold keptNames entryNames
  split
  · rfl
  · cases fs.enumerate operand.path <;> rfl

/-- **What is read of a directory with a start name** are the names that the
filter keeps, and sorting them does not give the order up. -/
theorem namesIn_start (ha : c.order.collator.AnswersBy answer)
    (h : c.namesIn fs operand (some start) startOnly s = (.ok table, operand', s')) :
    table.names.Perm (c.kept (some start) startOnly (entryNames fs operand') s).1 ∧
      c.order.usesKeys s' =
        c.order.usesKeys (c.kept (some start) startOnly (entryNames fs operand') s).2 := by
  cases reads_of_namesIn h with
  | nothing hn =>
    rw [entryNames, if_pos hn]
    exact ⟨List.Perm.refl _, rfl⟩
  | @directory entries _ _ hn henum hopened =>
    have hentries : entryNames fs operand' = entries.names := by
      rw [entryNames, hopened.isNonexistent, hn, hopened.path, henum]
      rfl
    rw [hentries]
    refine ⟨c.perm_keptTable (some start) startOnly entries.names s, ?_⟩
    change c.order.usesKeys (c.keptTable (some start) startOnly entries.names s).2 = _
    rw [keptTable, NameTable.run_sortTail, NameTable.names_ofList, List.drop_zero]
    refine NameOrdering.usesKeys_sort ha fun hk => ?_
    by_cases hu : c.order.usesKeys s = true
    · -- whatever was kept was compared by its key
      obtain ⟨hkept, hall⟩ := kept_eq ha hu start startOnly entries.names
      rw [hk] at hall
      have hall := List.all_eq_true.1 hall.symm
      intro x hx
      rw [hkept] at hx
      have hmem : x ∈ entries.names := by
        rcases List.mem_append.1 hx with hx | hx
        · exact List.takeWhile_subset _ (List.mem_filter.1 hx).1
        · exact List.dropWhile_subset _ (List.mem_filter.1 hx).1
      exact exists_key_of_comparable (hall x hmem)
    · rw [kept_of_not_usesKeys hu] at hk
      exact absurd hk hu

end Comparison

end TreeCompare
